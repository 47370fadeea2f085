import Docsmith.Proofs.Backslashes
import Docsmith.Regex.Posix
import Mathlib.Data.List.Induction

/-!
# Expanding property classes

A property class is written as an escape with a name.  The expansion of a pattern leaves such
escapes only where they are negated and inside a set, and what it puts in place of the others
brings none in: neither by itself, nor together with what stands before or behind it, nor by
moving what follows in or out of a set.  So a second expansion changes nothing.
-/

namespace Docsmith

theorem Text.after?_append (lead t : Text) : after? lead (lead ++ t) = some t := by
  induction lead with
  | nil => rfl
  | cons c lead ih => simp [after?, ih]

namespace Regex

/-! ## The escape of a property class -/

def spelledName (prefixed : Bool) (name : Text) : Text :=
  if prefixed then "Is" ++ name else name

def escapeMark (negated : Bool) : Text := if negated then "\\P\x7b" else "\\p\x7b"

def propertyText (negated prefixed : Bool) (name : Text) : Text :=
  escapeMark negated ++ (spelledName prefixed name ++ "\x7d")

theorem length_propertyText (negated prefixed : Bool) (name : Text) :
    (propertyText negated prefixed name).length = (spelledName prefixed name).length + 4 := by
  cases negated <;> simp [propertyText, escapeMark, Text.ofString]

theorem word_of_known : ∀ e ∈ propertyClasses, ∀ prefixed, ∀ c ∈ spelledName prefixed e.1,
    c.isWord = true := by
  decide +kernel

theorem unprefixed_of_known : ∀ e ∈ propertyClasses, e.1 ≠ [] ∧ Text.after? "Is" e.1 = none := by
  decide

theorem known_of_get? {name members : Text} (h : propertyClasses.get? name = some members) :
    (name, members) ∈ propertyClasses := by
  obtain ⟨e, he, rfl⟩ := Option.map_eq_some_iff.1 h
  have hname : e.1 = name := by simpa using List.find?_some he
  rw [← hname]
  exact List.mem_of_find?_eq_some he

theorem mark_of_or {t r : Text} {negated : Bool}
    (h : ((Text.after? "\\p\x7b" t).map (false, ·)).or ((Text.after? "\\P\x7b" t).map (true, ·)) =
      some (negated, r)) : t = escapeMark negated ++ r := by
  rcases Option.or_eq_some_iff.1 h with h | ⟨-, h⟩
  all_goals
    obtain ⟨u, hu, h⟩ := Option.map_eq_some_iff.1 h
    cases h
    exact Text.eq_append_of_after? hu

theorem or_of_mark (negated : Bool) (r : Text) :
    ((Text.after? "\\p\x7b" (escapeMark negated ++ r)).map (false, ·)).or
      ((Text.after? "\\P\x7b" (escapeMark negated ++ r)).map (true, ·)) = some (negated, r) := by
  cases negated <;> rfl

theorem property?_eq_some_iff {t : Text} {negated : Bool} {members : Text} {n : Nat} :
    property? t = some (negated, members, n) ↔
      ∃ prefixed name rest, t = propertyText negated prefixed name ++ rest ∧
        propertyClasses.get? name = some members ∧
        n = (propertyText negated prefixed name).length := by
  constructor
  · intro h
    unfold property? at h
    simp only [Option.bind_eq_bind, Option.bind_eq_some_iff] at h
    obtain ⟨⟨sign, r⟩, hmark, rest, hclose, found, hfound, h⟩ := h
    obtain ⟨rfl, rfl, rfl⟩ := h
    dsimp only at hclose hfound ⊢
    have hword : r = r.takeWhile CodePoint.isWord ++ ("\x7d" ++ rest) := by
      rw [← Text.eq_append_of_after? hclose, List.takeWhile_append_dropWhile]
    have htext (prefixed : Bool) (name : Text)
        (hname : r.takeWhile CodePoint.isWord = spelledName prefixed name) :
        t = propertyText sign prefixed name ++ rest ∧
          (r.takeWhile CodePoint.isWord).length + 4 =
            (propertyText sign prefixed name).length := by
      constructor
      · rw [mark_of_or hmark, propertyText, ← hname, List.append_assoc, List.append_assoc, ← hword]
      · rw [length_propertyText, hname]
    split at hfound
    case h_3 name _ hlong =>
      obtain ⟨ht, hlength⟩ := htext true name (Text.eq_append_of_after? hlong)
      exact ⟨true, name, rest, ht, hfound, hlength⟩
    all_goals
      obtain ⟨ht, hlength⟩ := htext false _ rfl
      exact ⟨false, _, rest, ht, hfound, hlength⟩
  · rintro ⟨isPrefixed, name, rest, rfl, hknown, rfl⟩
    have hmem := known_of_get? hknown
    obtain ⟨hne, hbare⟩ := unprefixed_of_known _ hmem
    have hwords := word_of_known _ hmem isPrefixed
    have hend : ¬(CodePoint.ofChar '\x7d').isWord = true := by decide +kernel
    have hbrace : Text.ofString "\x7d" ++ rest = CodePoint.ofChar '\x7d' :: rest := rfl
    have htake : (spelledName isPrefixed name ++ ("\x7d" ++ rest)).takeWhile CodePoint.isWord =
        spelledName isPrefixed name := by
      rw [List.takeWhile_append_of_pos hwords, hbrace, List.takeWhile_cons_of_neg hend,
        List.append_nil]
    have hdrop : (spelledName isPrefixed name ++ ("\x7d" ++ rest)).dropWhile CodePoint.isWord =
        "\x7d" ++ rest := by
      rw [List.dropWhile_append_of_pos hwords, hbrace, List.dropWhile_cons_of_neg hend]
    unfold property?
    rw [length_propertyText, propertyText, List.append_assoc, List.append_assoc, or_of_mark]
    simp only [Option.bind_eq_bind, Option.bind_some]
    rw [htake, hdrop, Text.after?_append]
    cases isPrefixed with
    | false => simp [spelledName, hbare, hknown]
    | true =>
        obtain ⟨c, name, rfl⟩ := List.exists_cons_of_ne_nil hne
        simp [spelledName, Text.after?_append, hknown]

/-! ## Places in a pattern -/

/-- Where a pattern is read up to: the site with respect to sets, and whether a backslash
waits for the code point that it escapes. -/
structure Point where
  site : SetSite
  pending : Bool
deriving DecidableEq

namespace Point

def start : Point := ⟨.outside, false⟩

def next (s : Point) (c : CodePoint) : Point :=
  if s.pending then ⟨s.site.escaped, false⟩
  else if c = '\\' then ⟨s.site, true⟩
  else ⟨s.site.after c, false⟩

def along (s : Point) (t : Text) : Point := t.foldl next s

@[simp] theorem along_nil (s : Point) : s.along [] = s := rfl

@[simp] theorem along_cons (s : Point) (c : CodePoint) (t : Text) :
    s.along (c :: t) = (s.next c).along t := rfl

@[simp] theorem along_append (s : Point) (t u : Text) : s.along (t ++ u) = (s.along t).along u :=
  List.foldl_append

theorem pending_next (s : Point) (c : CodePoint) :
    (s.next c).pending = (!s.pending && decide (c = '\\')) := by
  unfold next
  cases s.pending with
  | true => rfl
  | false => by_cases hc : c = '\\' <;> simp [hc]

end Point

theorem pending_along_start (t : Text) :
    (Point.start.along t).pending = false ↔ Even t.backslashes := by
  induction t using List.reverseRecOn with
  | nil => simp [Point.start, Text.backslashes]
  | append_singleton t c ih =>
      rw [Point.along_append, Point.along_cons, Point.along_nil, Point.pending_next,
        Text.backslashes_concat]
      by_cases hc : c = '\\'
      · simp [hc, Nat.even_add_one, ← ih]
      · simp [hc]

/-- The escapes of property classes in the pattern are all negated, and inside sets. -/
def Expanded (t : Text) : Prop :=
  ∀ before negated prefixed name rest, t = before ++ (propertyText negated prefixed name ++ rest) →
    Even before.backslashes → name ∈ propertyClasses.map Prod.fst →
      negated = true ∧ (Point.start.along before).site ≠ .outside

/-- At the site, no property class is spelled out in front of the text. -/
def Settled (site : SetSite) (t : Text) : Prop :=
  ∀ negated members n, property? t = some (negated, members, n) →
    site.spell? negated members = none

def SettledFrom (s : Point) (t : Text) : Prop :=
  ∀ before rest, t = before ++ rest → (s.along before).pending = false →
    Settled (s.along before).site rest

theorem spell?_eq_none_iff {site : SetSite} {negated : Bool} {members : Text} :
    site.spell? negated members = none ↔ negated = true ∧ site ≠ .outside := by
  cases site <;> cases negated <;> simp [SetSite.spell?]

theorem get?_isSome_iff {name : Text} :
    (∃ members, propertyClasses.get? name = some members) ↔
      name ∈ propertyClasses.map Prod.fst := by
  constructor
  · rintro ⟨members, h⟩
    exact List.mem_map_of_mem (known_of_get? h)
  · intro h
    obtain ⟨e, he, rfl⟩ := List.mem_map.1 h
    cases hget : propertyClasses.get? e.1 with
    | some members => exact ⟨members, rfl⟩
    | none =>
        have hnone := List.find?_eq_none.1 (Option.map_eq_none_iff.1 hget) e he
        simp at hnone

theorem expanded_iff (t : Text) : Expanded t ↔ SettledFrom Point.start t := by
  constructor
  · rintro h before rest rfl hpending negated members n hproperty
    obtain ⟨isPrefixed, name, tail, rfl, hknown, -⟩ := property?_eq_some_iff.1 hproperty
    exact spell?_eq_none_iff.2 (h before negated isPrefixed name tail rfl
      ((pending_along_start before).1 hpending) (get?_isSome_iff.1 ⟨members, hknown⟩))
  · rintro h before negated isPrefixed name rest rfl heven hname
    obtain ⟨members, hknown⟩ := get?_isSome_iff.2 hname
    exact spell?_eq_none_iff.1 (h before _ rfl ((pending_along_start before).2 heven) _ _ _
      (property?_eq_some_iff.2 ⟨isPrefixed, name, rest, rfl, hknown, rfl⟩))

/-! ## One step of the expansion -/

theorem expandFrom_skip (n : Nat) (site : SetSite) (t : Text) :
    expandFrom n site t = expandFrom 0 site (t.drop n) := by
  induction n generalizing t with
  | zero => rfl
  | succ n ih =>
      cases t with
      | nil => rfl
      | cons c r => exact ih r

theorem expandFrom_spelled {site : SetSite} {r members spelling : Text} {negated : Bool} {n : Nat}
    (known : property? (CodePoint.ofChar '\\' :: r) = some (negated, members, n))
    (spells : site.spell? negated members = some spelling) :
    expandFrom 0 site (CodePoint.ofChar '\\' :: r) =
      spelling ++ expandFrom 0 site.escaped ((CodePoint.ofChar '\\' :: r).drop n) := by
  obtain ⟨isPrefixed, name, -, -, -, hn⟩ := property?_eq_some_iff.1 known
  rw [length_propertyText] at hn
  rw [expandFrom, if_pos rfl, known, Option.bind_some]
  dsimp only
  rw [spells]
  dsimp only [Option.map]
  rw [expandFrom_skip, hn]
  rfl

theorem expandFrom_settled {site : SetSite} {r : Text}
    (settled : Settled site (CodePoint.ofChar '\\' :: r)) :
    expandFrom 0 site (CodePoint.ofChar '\\' :: r) =
      CodePoint.ofChar '\\' :: (r.take 1 ++ expandFrom 0 site.escaped (r.drop 1)) := by
  rw [expandFrom, if_pos rfl]
  cases hknown : property? (CodePoint.ofChar '\\' :: r) with
  | none =>
      dsimp only [Option.bind]
      rw [expandFrom_skip]
  | some known =>
      obtain ⟨negated, members, length⟩ := known
      rw [Option.bind_some]
      dsimp only
      rw [settled _ _ _ hknown]
      dsimp only [Option.map]
      rw [expandFrom_skip]

inductive Expands : SetSite → Text → Text → Prop
  | nil (site : SetSite) : Expands site [] []
  | plain {site : SetSite} {c : CodePoint} {r u : Text} (notBackslash : c ≠ '\\')
      (rest : Expands (site.after c) r u) : Expands site (c :: r) (c :: u)
  | last (site : SetSite) : Expands site [CodePoint.ofChar '\\'] [CodePoint.ofChar '\\']
  | escaped {site : SetSite} {d : CodePoint} {r u : Text}
      (settled : Settled site (CodePoint.ofChar '\\' :: d :: r))
      (rest : Expands site.escaped r u) :
      Expands site (CodePoint.ofChar '\\' :: d :: r) (CodePoint.ofChar '\\' :: d :: u)
  | spelled {site : SetSite} {t u members spelling : Text} {negated : Bool} {n : Nat}
      (known : property? t = some (negated, members, n))
      (spells : site.spell? negated members = some spelling)
      (rest : Expands site.escaped (t.drop n) u) : Expands site t (spelling ++ u)

theorem expands_expandFrom (site : SetSite) (t : Text) : Expands site t (expandFrom 0 site t) := by
  induction hn : t.length using Nat.strong_induction_on generalizing site t with
  | _ n ih =>
      cases t with
      | nil => exact .nil site
      | cons c r =>
          by_cases hc : c = '\\'
          · subst hc
            by_cases hsettled : Settled site (CodePoint.ofChar '\\' :: r)
            · rw [expandFrom_settled hsettled]
              cases r with
              | nil => exact .last site
              | cons d r =>
                  have hshorter : r.length < n := by
                    rw [← hn, List.length_cons, List.length_cons]
                    omega
                  exact .escaped hsettled (ih r.length hshorter _ _ rfl)
            · unfold Settled at hsettled
              push Not at hsettled
              obtain ⟨negated, members, length, hknown, hspells⟩ := hsettled
              obtain ⟨spelling, hspelling⟩ := Option.ne_none_iff_exists'.1 hspells
              rw [expandFrom_spelled hknown hspelling]
              refine .spelled hknown hspelling (ih _ ?_ _ _ rfl)
              obtain ⟨_, _, _, -, -, hlength⟩ := property?_eq_some_iff.1 hknown
              rw [length_propertyText] at hlength
              rw [List.length_drop, ← hn, List.length_cons]
              omega
          · unfold expandFrom
            rw [if_neg hc]
            exact .plain hc (ih r.length (by simp [← hn]) _ _ rfl)

/-! ## What is settled stays -/

theorem SettledFrom.along {s : Point} {t u : Text} (h : SettledFrom s (t ++ u)) :
    SettledFrom (s.along t) u := by
  rintro before rest rfl hpending
  have hboth := h (t ++ before) rest (List.append_assoc ..).symm
  rw [Point.along_append] at hboth
  exact hboth hpending

theorem along_plain {site : SetSite} {c : CodePoint} (h : c ≠ '\\') :
    Point.along ⟨site, false⟩ [c] = ⟨site.after c, false⟩ := by
  simp [Point.next, h]

theorem along_escaped (site : SetSite) (d : CodePoint) :
    Point.along ⟨site, false⟩ [CodePoint.ofChar '\\', d] = ⟨site.escaped, false⟩ := by
  simp [Point.next]

theorem Expands.eq_self {site : SetSite} {t u : Text} (h : Expands site t u)
    (settled : SettledFrom ⟨site, false⟩ t) : u = t := by
  induction h with
  | nil => rfl
  | last => rfl
  | @plain site c r u hc _ ih =>
      have hrest := SettledFrom.along (t := [c]) settled
      rw [along_plain hc] at hrest
      rw [ih hrest]
  | @escaped site d r u _ _ ih =>
      have hrest := SettledFrom.along (t := [CodePoint.ofChar '\\', d]) settled
      rw [along_escaped] at hrest
      rw [ih hrest]
  | spelled known spells =>
      have hnone := settled [] _ rfl rfl _ _ _ known
      rw [Point.along_nil, spells] at hnone
      cases hnone

/-! ## What the members of a class are spelled as -/

def quiet : Text → Bool
  | [] => true
  | [c] => c ≠ '\\'
  | c :: d :: r => (c ≠ '\\' || (d ≠ 'p' && d ≠ 'P')) && quiet (d :: r)

theorem property?_eq_none_of_quiet {t : Text} (h : quiet t = true) (hne : t ≠ []) (u : Text) :
    property? (t ++ u) = none := by
  by_contra hsome
  obtain ⟨⟨negated, members, n⟩, hproperty⟩ := Option.ne_none_iff_exists'.1 hsome
  obtain ⟨isPrefixed, name, rest, htext, -, -⟩ := property?_eq_some_iff.1 hproperty
  obtain ⟨d, tail, hmark, hd⟩ : ∃ d tail, propertyText negated isPrefixed name =
      CodePoint.ofChar '\\' :: d :: tail ∧ (d = 'p' ∨ d = 'P') := by
    cases negated with
    | false => exact ⟨_, _, rfl, .inl rfl⟩
    | true => exact ⟨_, _, rfl, .inr rfl⟩
  rw [hmark] at htext
  match t, h with
  | [], _ => exact hne rfl
  | [c], h =>
      injection htext with hc _
      simp [quiet, hc] at h
  | c :: e :: r, h =>
      injection htext with hc htext
      injection htext with he _
      rcases hd with rfl | rfl <;> simp [quiet, hc, he] at h

theorem quiet_right {t u : Text} (h : quiet (t ++ u) = true) : quiet u = true := by
  induction t with
  | nil => exact h
  | cons c t ih =>
      apply ih
      cases htu : t ++ u with
      | nil => rfl
      | cons d r =>
          rw [List.cons_append, htu, quiet, Bool.and_eq_true] at h
          exact h.2

def namesClass (c : CodePoint) : Bool := c.isWord || c = '\x7b'

/-- The first two code points do not belong together to the end of an escape. -/
def breaksName : Text → Bool
  | c :: d :: _ => c ≠ '\x7d' && (!namesClass c || (!namesClass d && d ≠ '\x7d'))
  | _ => false

theorem spelling_of_known : ∀ e ∈ propertyClasses, ∀ negated,
    ∀ site ∈ [SetSite.outside, .opened, .caret, .inside],
      ∀ spelling ∈ site.spell? negated e.2, quiet spelling = true ∧ breaksName spelling = true ∧
        Point.along ⟨site, false⟩ spelling = ⟨site.escaped, false⟩ := by
  decide +kernel

theorem spells_of_known {t : Text} {negated : Bool} {members spelling : Text} {n : Nat}
    {site : SetSite} (known : property? t = some (negated, members, n))
    (spells : site.spell? negated members = some spelling) :
    quiet spelling = true ∧ breaksName spelling = true ∧
      Point.along ⟨site, false⟩ spelling = ⟨site.escaped, false⟩ := by
  obtain ⟨_, name, _, -, hknown, -⟩ := property?_eq_some_iff.1 known
  exact spelling_of_known _ (known_of_get? hknown) negated site (by cases site <;> decide) spelling
    spells

/-! ## What is expanded is settled -/

theorem ne_of_breaksName {spelling name : Text} (h : breaksName spelling = true)
    (hname : ∀ c ∈ name, namesClass c = true) (u rest : Text) :
    spelling ++ u ≠ name ++ CodePoint.ofChar '\x7d' :: rest := by
  intro heq
  match spelling, name, h with
  | c :: d :: s, [], h =>
      injection heq with hc _
      simp [breaksName, hc] at h
  | c :: d :: s, [x], h =>
      injection heq with hc heq
      injection heq with hd _
      have hx := hname x (by simp)
      simp [breaksName, hc, hd, hx] at h
  | c :: d :: s, x :: y :: _, h =>
      injection heq with hc heq
      injection heq with hd _
      have hx := hname x (by simp)
      have hy := hname y (by simp)
      simp [breaksName, hc, hd, hx, hy] at h

theorem ne_of_backslash {name : Text} (hname : ∀ c ∈ name, namesClass c = true) (u rest : Text) :
    CodePoint.ofChar '\\' :: u ≠ name ++ CodePoint.ofChar '\x7d' :: rest := by
  intro heq
  cases name with
  | nil =>
      injection heq with hc _
      exact absurd hc (by decide)
  | cons c name =>
      injection heq with hc _
      have hnot : namesClass (CodePoint.ofChar '\\') = false := by decide +kernel
      rw [hc, hname c List.mem_cons_self] at hnot
      cases hnot

/-- A name with its closing brace is there only if it was there before: what is spelled out
does not look like the end of an escape. -/
theorem Expands.exists_name {site : SetSite} {t u : Text} (h : Expands site t u)
    {name rest : Text} (hname : ∀ c ∈ name, namesClass c = true)
    (hu : u = name ++ CodePoint.ofChar '\x7d' :: rest) :
    ∃ rest', t = name ++ CodePoint.ofChar '\x7d' :: rest' := by
  induction h generalizing name with
  | nil => simp at hu
  | last => exact absurd hu (ne_of_backslash hname _ _)
  | escaped => exact absurd hu (ne_of_backslash hname _ _)
  | spelled known spells =>
      obtain ⟨-, hbreaks, -⟩ := spells_of_known known spells
      exact absurd hu (ne_of_breaksName hbreaks hname _ _)
  | @plain site c r u _ _ ih =>
      cases name with
      | nil =>
          injection hu with hc _
          exact ⟨r, by rw [hc]; rfl⟩
      | cons d name =>
          injection hu with hc hu
          obtain ⟨rest', hr⟩ := ih (fun e he => hname e (List.mem_cons_of_mem _ he)) hu
          exact ⟨rest', by rw [hc, hr]; rfl⟩

theorem Settled.of_expands {site : SetSite} {d : CodePoint} {r u : Text}
    (settled : Settled site (CodePoint.ofChar '\\' :: d :: r)) (h : Expands site.escaped r u) :
    Settled site (CodePoint.ofChar '\\' :: d :: u) := by
  intro negated members n hknown
  obtain ⟨isPrefixed, name, rest, htext, hget, hn⟩ := property?_eq_some_iff.1 hknown
  have hname : ∀ c ∈ CodePoint.ofChar '\x7b' :: spelledName isPrefixed name,
      namesClass c = true := by
    intro c hc
    rcases List.mem_cons.1 hc with rfl | hc
    · decide +kernel
    · simp [namesClass, word_of_known _ (known_of_get? hget) isPrefixed c hc]
  have hparts (v : Text) : propertyText negated isPrefixed name ++ v =
      CodePoint.ofChar '\\' :: (if negated then CodePoint.ofChar 'P' else 'p') ::
        (CodePoint.ofChar '\x7b' :: spelledName isPrefixed name ++
          CodePoint.ofChar '\x7d' :: v) := by
    cases negated <;> simp [propertyText, escapeMark, Text.ofString]
  rw [hparts] at htext
  injection htext with _ htext
  injection htext with hd htext
  obtain ⟨rest', hr⟩ := h.exists_name hname htext
  refine settled negated members n (property?_eq_some_iff.2 ⟨isPrefixed, name, rest', ?_, hget, hn⟩)
  rw [hparts, hd, hr]

theorem settledFrom_append {s : Point} {t u : Text}
    (within : ∀ before after, t = before ++ after → after ≠ [] → (s.along before).pending = false →
      Settled (s.along before).site (after ++ u))
    (behind : SettledFrom (s.along t) u) : SettledFrom s (t ++ u) := by
  intro before rest hsplit hpending
  rcases List.append_eq_append_iff.1 hsplit with ⟨more, rfl, rfl⟩ | ⟨after, rfl, rfl⟩
  · rw [Point.along_append] at hpending ⊢
    exact behind more rest rfl hpending
  · cases after with
    | nil =>
        rw [List.append_nil] at behind
        exact behind [] u rfl hpending
    | cons c after => exact within before (c :: after) rfl (by simp) hpending

theorem settled_of_none {t : Text} (h : property? t = none) (site : SetSite) : Settled site t := by
  intro negated members n hknown
  rw [h] at hknown
  cases hknown

theorem settledFrom_nil (s : Point) : SettledFrom s [] := by
  intro before rest hsplit _
  obtain ⟨rfl, rfl⟩ := List.append_eq_nil_iff.1 hsplit.symm
  exact settled_of_none rfl _

theorem Expands.settledFrom {site : SetSite} {t u : Text} (h : Expands site t u) :
    SettledFrom ⟨site, false⟩ u := by
  induction h with
  | nil => exact settledFrom_nil _
  | last site =>
      refine settledFrom_append (t := [_]) ?_ (settledFrom_nil _)
      intro before after hsplit hne _
      rcases List.singleton_eq_append_iff.1 hsplit with ⟨rfl, rfl⟩ | ⟨-, rfl⟩
      · exact settled_of_none rfl _
      · exact absurd rfl hne
  | @plain site c r u hc _ ih =>
      refine settledFrom_append (t := [c]) ?_ (by rwa [along_plain hc])
      intro before after hsplit hne _
      rcases List.singleton_eq_append_iff.1 hsplit with ⟨rfl, rfl⟩ | ⟨-, rfl⟩
      · exact settled_of_none (property?_eq_none_of_quiet (by simpa [quiet] using hc) hne u) _
      · exact absurd rfl hne
  | @escaped site d r u settled rest ih =>
      refine settledFrom_append (t := [CodePoint.ofChar '\\', d]) ?_ (by rwa [along_escaped])
      intro before after hsplit hne hpending
      -- Inside the escape there is only the code point that is escaped.
      match before, after, hsplit with
      | [], _, rfl => exact settled.of_expands rest
      | [_], _, rfl => simp [Point.next] at hpending
      | _ :: _ :: before, after, hsplit =>
          obtain ⟨-, hafter⟩ : before = [] ∧ after = [] := by simpa using (List.cons.inj
            (List.cons.inj hsplit).2).2
          exact absurd hafter hne
  | @spelled site t u members spelling negated n known spells _ ih =>
      obtain ⟨hquiet, -, halong⟩ := spells_of_known known spells
      refine settledFrom_append ?_ (by rwa [halong])
      rintro before after rfl hne -
      exact settled_of_none (property?_eq_none_of_quiet (quiet_right hquiet) hne u) _

/-- Expanding a pattern leaves no property escape but negated ones inside sets, a second
expansion changes nothing, and the patterns that the expansion leaves alone are just those in
which no other property escape stands. -/
theorem expand_retracts_onto_expanded (source : Text) :
    Expanded (expand source) ∧ expand (expand source) = expand source ∧
      (expand source = source ↔ Expanded source) := by
  have hsettled (t : Text) : Expanded (expand t) :=
    (expanded_iff _).2 (expands_expandFrom .outside t).settledFrom
  have hself {t : Text} (h : Expanded t) : expand t = t :=
    (expands_expandFrom .outside t).eq_self ((expanded_iff t).1 h)
  exact ⟨hsettled source, hself (hsettled source), fun h => h ▸ hsettled source, hself⟩

/-- A set with a closing bracket as its first member, and an escaped backslash before a name. -/
example :
    expand "[^]\\P\x7bUpper\x7d\\p\x7bIsDigit\x7d]\\P\x7bBlank\x7d\\\\p\x7bLower\x7d" =
      "[^]\\P\x7bUpper\x7d0-9][^ \\t]\\\\p\x7bLower\x7d" := by
  decide +kernel

end Regex

end Docsmith
