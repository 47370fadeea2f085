import Docsmith.Proofs.Metadata
import Docsmith.Source.Definition

/-!
# Which forms give a namespace

Forms that can be read may still give no namespace: a pattern in metadata is refused, a map in
metadata has a collection as a key, or an integer is too long to be written out.  Each step from
the forms to the namespace is told what it needs.  Without it the step strays: it fails, and the
failure is not one that a run reports as its own.
-/

namespace Docsmith

/-! ## Steps and what they need -/

structure Needs {α : Type} (x : Except Failure α) (c : Prop) (p : α → Prop) : Prop where
  gives : c → ∃ a, x = .ok a ∧ p a
  strays : ¬c → ∃ f, x = .error f ∧ f.isFatal = false

section Needs

variable {α β : Type} {x : Except Failure α} {c c' : Prop} {p : α → Prop}

theorem needs_ok {a : α} (h : p a) : Needs (.ok a) True p :=
  ⟨fun _ => ⟨a, rfl, h⟩, fun hc => absurd trivial hc⟩

theorem Needs.of_iff (h : Needs x c p) (hc : c' ↔ c) : Needs x c' p :=
  ⟨fun h' => h.gives (hc.1 h'), fun h' => h.strays (mt hc.2 h')⟩

theorem Needs.mono {q : α → Prop} (h : Needs x c p) (hp : ∀ a, p a → q a) : Needs x c q where
  gives hc := by
    obtain ⟨a, ha, hpa⟩ := h.gives hc
    exact ⟨a, ha, hp a hpa⟩
  strays := h.strays

theorem Needs.bind {next : α → Except Failure β} {q : β → Prop} (hx : Needs x c p)
    (hnext : ∀ a, p a → Needs (next a) c' q) : Needs (x >>= next) (c ∧ c') q where
  gives h := by
    obtain ⟨a, rfl, ha⟩ := hx.gives h.1
    exact (hnext a ha).gives h.2
  strays h := by
    by_cases hc : c
    · obtain ⟨a, rfl, ha⟩ := hx.gives hc
      exact (hnext a ha).strays fun hc' => h ⟨hc, hc'⟩
    · obtain ⟨f, rfl, hf⟩ := hx.strays hc
      exact ⟨f, rfl, hf⟩

theorem Needs.bind_ok {g : α → β} {q : β → Prop} (hx : Needs x c p) (hg : ∀ a, p a → q (g a)) :
    Needs (x >>= fun a => .ok (g a)) c q :=
  (hx.bind fun a ha => needs_ok (hg a ha)).of_iff (by simp)

theorem Needs.map (hx : Needs x c p) (g : α → β) : Needs (x.map g) c fun _ => True :=
  hx.bind_ok fun _ _ => trivial

theorem needs_mapM {f : α → Except Failure β} {each : α → Prop} {as : List α}
    (h : ∀ a ∈ as, Needs (f a) (each a) fun _ => True) :
    Needs (as.mapM f) (∀ a ∈ as, each a) fun _ => True := by
  induction as with
  | nil => exact (needs_ok trivial).of_iff (by simp)
  | cons a as ih =>
      obtain ⟨hfirst, hrest⟩ := List.forall_mem_cons.1 h
      rw [List.mapM_cons]
      refine (hfirst.bind fun b _ => (ih hrest).bind_ok fun _ _ => trivial).of_iff ?_
      exact List.forall_mem_cons

end Needs

/-! ## Values of forms -/

namespace Form

def isColl : Form → Bool
  | .coll .. => true
  | _ => false

mutual
def convertible : Form → Bool
  | .regex source => (Regex.compilePosix source).isOk
  | .coll .map _ items => convertiblePairs items
  | .coll _ _ items => convertibleItems items
  | _ => true

def convertibleItems : List Form → Bool
  | [] => true
  | f :: fs => convertible f && convertibleItems fs

def convertiblePairs : List Form → Bool
  | k :: f :: fs => convertible k && !k.isColl && convertible f && convertiblePairs fs
  | _ => true
end

theorem isKey_of_toValue {f : Form} {v : Value} (h : f.toValue = .ok v) : v.isKey = !f.isColl := by
  cases f with
  | regex source =>
      obtain ⟨r, -, rfl⟩ := exists_of_map_eq_ok (eq_ok_of_mapError_eq_ok h)
      rfl
  | coll shape line items =>
      cases shape with
      | map =>
          obtain ⟨entries, -, h⟩ := exists_of_bind_eq_ok h
          cases h
          rfl
      | _ =>
          obtain ⟨values, -, h⟩ := exists_of_bind_eq_ok h
          cases h
          rfl
  | _ =>
      cases h
      rfl

mutual
theorem isOk_toValue (f : Form) : f.toValue.isOk = f.convertible := by
  match f with
  | .regex source =>
      rw [toValue, convertible]
      cases Regex.compilePosix source <;> rfl
  | .coll .map line items =>
      have hitems := isOk_toEntries items []
      rw [toValue, convertible, ← hitems]
      cases toEntries items [] <;> rfl
  | .coll .list line items | .coll .vector line items | .coll .set line items =>
      have hitems := isOk_toValues items
      rw [toValue, convertible, ← hitems]
      · cases toValues items <;> rfl
      all_goals simp
  | .nil | .bool _ | .int _ | .float _ | .str _ | .symbol _ _ | .keyword _ | .char _ =>
      simp [toValue, convertible, Except.isOk, Except.toBool]

theorem isOk_toValues (items : List Form) : (toValues items).isOk = convertibleItems items := by
  match items with
  | [] => rfl
  | f :: fs =>
      have hf := isOk_toValue f
      have hfs := isOk_toValues fs
      rw [toValues, convertibleItems, ← hf, ← hfs]
      cases toValue f with
      | error e => rfl
      | ok v => cases toValues fs <;> rfl

theorem isOk_toEntries (items : List Form) (acc : Dict) :
    (toEntries items acc).isOk = convertiblePairs items := by
  match items with
  | [] => rfl
  | [_] => rfl
  | k :: f :: fs =>
      have hk := isOk_toValue k
      have hf := isOk_toValue f
      rw [toEntries, convertiblePairs, ← hk, ← hf]
      cases hkey : toValue k with
      | error e => rfl
      | ok key =>
          have hcoll := isKey_of_toValue hkey
          cases toValue f with
          | error e => simp [bind, Except.bind, Except.isOk, Except.toBool]
          | ok value =>
              rw [← isOk_toEntries fs (Dict.insert key value acc)]
              rw [← hcoll]
              cases h : key.isKey <;> simp [bind, Except.bind, Except.isOk, Except.toBool, h]
end

end Form

/-! ## Definitions -/

namespace Definition

theorem needs_write (f : Form) : Needs (write f) (f.writable = true) fun _ => True := by
  refine ⟨fun h => ⟨f.render, by rw [write, if_pos h], trivial⟩, fun h => ?_⟩
  exact ⟨_, by rw [write, if_neg h], rfl⟩

theorem needs_writeAll (fs : List Form) :
    Needs (writeAll fs) (∀ f ∈ fs, f.writable = true) fun _ => True :=
  needs_mapM fun f _ => needs_write f

theorem needs_version (o : Option Form) :
    Needs (version o) (∀ f ∈ o, f.writable = true) fun _ => True := by
  unfold version
  split
  case h_1 => exact (needs_ok trivial).of_iff (by simp)
  case h_2 => exact (needs_ok trivial).of_iff (by simp [Form.writable])
  case h_3 => exact (needs_ok trivial).of_iff (by simp [Form.writable])
  case h_4 => exact (needs_ok trivial).of_iff (by simp [Form.writable])
  case h_5 f _ _ _ =>
    exact ((needs_write f).map _).of_iff (by simp)

structure SoundAttrs (fields : List Text) (attrs : Attrs) : Prop where
  added : ∀ f ∈ attrs.get? "added", f.writable = true
  deprecated : ∀ f ∈ attrs.get? "deprecated", f.writable = true
  extra : ∀ e ∈ withoutFields fields attrs, isDropped e.1 = false → e.2.convertible = true

theorem needs_extraAttrs (attrs : Attrs) :
    Needs (extraAttrs attrs) (∀ e ∈ attrs, isDropped e.1 = false → e.2.convertible = true)
      fun _ => True := by
  have heach (e : Text × Form) :
      Needs ((e.2.toValue.map fun v => (Value.str e.1, v)).mapError Failure.ofValueFault)
        (e.2.convertible = true) fun _ => True := by
    rw [← Form.isOk_toValue]
    cases hvalue : e.2.toValue with
    | ok v => exact (needs_ok trivial).of_iff (by simp [Except.isOk, Except.toBool])
    | error fault =>
        refine ⟨nofun, fun _ => ⟨.ofValueFault fault, rfl, ?_⟩⟩
        cases fault <;> rfl
  refine (needs_mapM fun e _ => heach e).of_iff ?_
  simp

theorem needs_fields {α : Type} (fields : List Text) (attrs : Attrs)
    (make : Value → Value → Dict → α) :
    Needs (do
        let added ← version (attrs.get? "added")
        let deprecated ← version (attrs.get? "deprecated")
        let extra ← extraAttrs (withoutFields fields attrs)
        return make added deprecated extra)
      (SoundAttrs fields attrs) fun _ => True := by
  refine ((needs_version _).bind fun _ _ => (needs_version _).bind fun _ _ =>
    (needs_extraAttrs _).bind_ok fun _ _ => trivial).of_iff ?_
  exact ⟨fun h => ⟨h.added, h.deprecated, h.extra⟩, fun h => ⟨h.1, h.2.1, h.2.2⟩⟩

/-! ### The parts of a body -/

def leadingKeys : List Form → List Form
  | .coll .map _ items :: _ => (Form.pairs items).map Prod.fst
  | _ => []

def overlaid (attrs : Attrs) : List Form → Attrs
  | .coll .map line items :: _ => Table.update attrs (Form.coll .map line items).entries
  | _ => attrs

def behindMap : List Form → List Form
  | .coll .map _ _ :: rest => rest
  | rest => rest

theorem needs_takeAttrs (attrs : Attrs) (body : List Form) :
    Needs (takeAttrs attrs body) (∀ k ∈ leadingKeys body, k.nameable = true)
      (· = (overlaid attrs body, behindMap body)) := by
  unfold takeAttrs
  split
  case h_1 line items rest =>
    have hkeys : (∀ k ∈ leadingKeys (.coll .map line items :: rest), k.nameable = true) ↔
        ∀ e ∈ Form.pairs items, e.1.nameable = true := List.forall_mem_map
    refine Needs.bind_ok (p := (· = (Form.coll .map line items).entries)) ?_ ?_
    · refine Needs.of_iff ⟨fun h => ?_, fun h => ?_⟩ hkeys
      · exact ⟨_, congrArg (Except.mapError _) (Form.attrsOfPairs_of_nameable h []), rfl⟩
      · exact ⟨_, congrArg (Except.mapError _) (Form.attrsOfPairs_of_not_nameable h []), rfl⟩
    · rintro _ rfl
      rfl
  case h_2 hother =>
    have hkeys : leadingKeys body = [] := by
      unfold leadingKeys
      split
      · exact absurd rfl (hother _ _ _)
      · rfl
    have hparts : (attrs, body) = (overlaid attrs body, behindMap body) := by
      unfold overlaid behindMap
      split
      · exact absurd rfl (hother _ _ _)
      · rfl
    exact Needs.of_iff (needs_ok hparts) (by simp [hkeys])

def memberVectors : List Form → List Form
  | [] => []
  | .keyword _ :: _ :: rest => memberVectors rest
  | .coll .list _ (.symbol _ _ :: signature) :: rest =>
      signature.filter Form.isVector ++ memberVectors rest
  | _ :: rest => memberVectors rest

theorem needs_members (file : Text) (body : List Form) :
    Needs (members file body) (∀ v ∈ memberVectors body, v.writable = true) fun _ => True := by
  fun_induction memberVectors body with
  | case1 => exact (needs_ok trivial).of_iff (by simp)
  | case2 _ _ rest ih => exact ih
  | case3 line name attrs signature rest ih =>
      refine ((needs_writeAll _).bind fun _ _ => ih.bind_ok fun _ _ => trivial).of_iff ?_
      exact List.forall_mem_append
  | case4 f rest hkeyword hlist ih =>
      rw [members]
      · exact ih
      · exact hkeyword
      · exact hlist

/-- What a definition has that is named, written out or converted: the keys of its map, the
vectors of its members and its own, and its metadata. -/
structure Content where
  keys : List Form := []
  members : List Form := []
  vectors : List Form := []
  attrs : Attrs

def contentOf (kind : Text) (attrs : Attrs) (rest : List Form) : Content :=
  if kind = "var" then { attrs := attrs }
  else
    let body := (takeDoc rest).2
    { keys := leadingKeys body
      members := if kind = "protocol" then memberVectors (behindMap body) else []
      vectors := if kind = "fn" || kind = "macro" then arityVectors (behindMap body) else []
      attrs := overlaid attrs body }

structure Content.Sound (c : Content) : Prop where
  keys : ∀ k ∈ c.keys, k.nameable = true
  members : ∀ v ∈ c.members, v.writable = true
  vectors : ∀ v ∈ c.vectors, v.writable = true
  arglists : ∀ f ∈ c.attrs.get? "arglists", ∀ v ∈ explicitVectors f, v.writable = true
  attrs : SoundAttrs ["arglists", "doc", "no-doc", "added", "deprecated"] c.attrs

theorem needs_bodyOf (kind file : Text) (attrs : Attrs) (rest : List Form) :
    Needs (bodyOf kind file attrs rest)
      ((∀ k ∈ (contentOf kind attrs rest).keys, k.nameable = true) ∧
        ∀ v ∈ (contentOf kind attrs rest).members, v.writable = true)
      fun b => b.attrs = (contentOf kind attrs rest).attrs ∧
        b.vectors = (contentOf kind attrs rest).vectors := by
  unfold bodyOf contentOf
  split
  · exact (needs_ok ⟨rfl, rfl⟩).of_iff (by simp)
  · dsimp only
    refine (needs_takeAttrs _ _).bind fun taken htaken => ?_
    subst htaken
    by_cases hprotocol : kind = "protocol"
    · subst hprotocol
      exact (needs_members file _).bind_ok fun _ _ => ⟨rfl, rfl⟩
    · by_cases hfn : (kind = "fn" || kind = "macro") = true
      · simp only [hprotocol, hfn, if_false, if_true]
        exact (needs_ok ⟨rfl, rfl⟩).of_iff (by simp)
      · simp only [hprotocol, hfn, if_false]
        exact (needs_ok ⟨rfl, rfl⟩).of_iff (by simp)

theorem needs_toVar (name kind file : Text) (line : Nat) (b : Body) :
    Needs (toVar name kind file line b)
      ((∀ v ∈ b.vectors, v.writable = true) ∧
        (∀ f ∈ b.attrs.get? "arglists", ∀ v ∈ explicitVectors f, v.writable = true) ∧
        SoundAttrs ["arglists", "doc", "no-doc", "added", "deprecated"] b.attrs)
      fun _ => True := by
  refine (needs_writeAll b.vectors).bind fun implicit _ => ?_
  dsimp only
  split
  case h_1 f hf =>
    refine ((needs_writeAll (explicitVectors f)).bind fun _ _ => needs_fields _ _ _).of_iff ?_
    simp [hf]
  case h_2 hnone =>
    refine (needs_fields _ _ _).of_iff ?_
    simp [hnone]

/-- What a definition has, if it is public.  Of a record or type only the fields are
written out. -/
def content? (macros : Bool) (head : Text) (rest : List Form) : Option Content :=
  let definer := localName head
  if definer = "defrecord" || definer = "deftype" then
    match rest with
    | .symbol _ attrs :: .coll .vector line fields :: _ =>
        if isPrivate attrs then none
        else some { vectors := [.coll .vector line fields], attrs := [] }
    | _ => none
  else
    match kinds.get? definer, rest with
    | some kind, .symbol _ attrs :: rest =>
        if definer = "defn-" || isPrivate attrs || (kind = "macro" && !macros) then none
        else some (contentOf kind attrs rest)
    | _, _ => none

theorem sound_fields_iff (f : Form) :
    Content.Sound { vectors := [f], attrs := [] } ↔ f.writable = true := by
  refine ⟨fun h => h.vectors f (by simp), fun h => ⟨nofun, nofun, by simpa using h, nofun, ?_⟩⟩
  exact ⟨nofun, nofun, nofun⟩

theorem Content.sound_iff (c : Content) :
    c.Sound ↔ ((∀ k ∈ c.keys, k.nameable = true) ∧ ∀ v ∈ c.members, v.writable = true) ∧
      (∀ v ∈ c.vectors, v.writable = true) ∧
      (∀ f ∈ c.attrs.get? "arglists", ∀ v ∈ explicitVectors f, v.writable = true) ∧
      SoundAttrs ["arglists", "doc", "no-doc", "added", "deprecated"] c.attrs :=
  ⟨fun h => ⟨⟨h.keys, h.members⟩, h.vectors, h.arglists, h.attrs⟩,
    fun ⟨⟨keys, members⟩, vectors, arglists, attrs⟩ => ⟨keys, members, vectors, arglists, attrs⟩⟩

theorem needs_varOf (name kind file : Text) (line : Nat) (attrs : Attrs) (rest : List Form) :
    Needs (bodyOf kind file attrs rest >>= toVar name kind file line)
      (contentOf kind attrs rest).Sound fun _ => True := by
  rw [Content.sound_iff]
  refine (needs_bodyOf kind file attrs rest).bind fun b hb => ?_
  rw [← hb.1, ← hb.2]
  exact needs_toVar name kind file line b

theorem needs_publics (macros : Bool) (ns file head : Text) (line : Nat) (rest : List Form) :
    Needs (publics macros ns file head line rest) (∀ c ∈ content? macros head rest, c.Sound)
      fun _ => True := by
  have hnothing (h : content? macros head rest = none) :
      Needs (.ok ([] : List Var)) (∀ c ∈ content? macros head rest, c.Sound) fun _ => True :=
    Needs.of_iff (needs_ok trivial) (by simp [h])
  unfold publics
  dsimp only
  split
  case isTrue hrecord =>
    split
    case h_1 =>
      split
      case isTrue hprivate =>
        exact hnothing (by simp only [content?, hrecord, hprivate, if_true])
      case isFalse hprivate =>
        refine ((needs_write _).bind_ok fun _ _ => trivial).of_iff ?_
        simp [content?, hrecord, hprivate, sound_fields_iff]
    case h_2 hother =>
      refine hnothing ?_
      unfold content?
      rw [if_pos hrecord]
      split
      · exact absurd rfl (hother _ _ _ _ _)
      · rfl
  case isFalse hrecord =>
    split
    case h_1 kind name attrs rest hkind =>
      have hcontent : content? macros head (.symbol name attrs :: rest) =
          if localName head = "defn-" || isPrivate attrs || (kind = "macro" && !macros) then none
          else some (contentOf kind attrs rest) := by
        unfold content?
        rw [if_neg hrecord, hkind]
      split
      case isTrue hhidden =>
        exact hnothing (hcontent.trans (if_pos hhidden))
      case isFalse hhidden =>
        rw [hcontent, if_neg hhidden]
        have hvar := (needs_varOf name kind file line attrs rest).bind_ok (g := fun v => [v])
          (q := fun _ => True) fun _ _ => trivial
        rw [bind_assoc] at hvar
        exact hvar.of_iff (by simp)
    case h_2 hother =>
      refine hnothing ?_
      unfold content?
      rw [if_neg hrecord]
      split
      · exact absurd rfl (hother _ _ _ _ ‹_›)
      · rfl

/-! ### Namespaces -/

def contentIn? (macros : Bool) : Form → Option Content
  | .coll .list _ (.symbol head _ :: rest) => content? macros head rest
  | _ => none

theorem needs_publicsOf (macros : Bool) (ns file : Text) (forms : List Form) :
    Needs (publicsOf macros ns file forms)
      (∀ f ∈ forms, ∀ c ∈ contentIn? macros f, c.Sound) fun _ => True := by
  unfold publicsOf
  -- The induction is over the forms, for any variables found before.
  generalize [] = vars
  induction forms generalizing vars with
  | nil => exact Needs.of_iff (needs_ok trivial) (by simp)
  | cons f forms ih =>
      rw [List.foldlM_cons, List.forall_mem_cons]
      refine Needs.bind (p := fun _ => True) ?_ fun vars _ => ih vars
      split
      case h_1 => exact (needs_publics _ _ _ _ _ _).bind_ok fun _ _ => trivial
      case h_2 hother =>
        have hnone : contentIn? macros f = none := by
          unfold contentIn?
          split
          · exact absurd rfl (hother _ _ _ _)
          · rfl
        exact Needs.of_iff (needs_ok trivial) (by simp [hnone])

structure Header.Sound (h : Header) : Prop where
  keys : ∀ k ∈ leadingKeys (takeDoc h.rest).2, k.nameable = true
  attrs : SoundAttrs ["doc", "author", "no-doc", "added", "deprecated"]
    (overlaid h.attrs (takeDoc h.rest).2)

theorem needs_namespaceOf (h : Header) (vars : List Var) :
    Needs (namespaceOf h vars) h.Sound fun _ => True := by
  refine Needs.of_iff (p := fun _ => True)
    ((needs_takeAttrs h.attrs (takeDoc h.rest).2).bind fun taken htaken => ?_)
    ⟨fun h => ⟨h.keys, h.attrs⟩, fun h => ⟨h.1, h.2⟩⟩
  subst htaken
  exact needs_fields _ _ _

def Sound (macros : Bool) : List Form → Prop
  | [] => True
  | f :: rest =>
      match header? f with
      | none => Sound macros rest
      | some h => (∀ g ∈ rest, ∀ c ∈ contentIn? macros g, c.Sound) ∧ h.Sound

theorem needs_ofForms (macros : Bool) (file : Text) (forms : List Form) :
    Needs (ofForms macros file forms) (Sound macros forms) fun _ => True := by
  induction forms with
  | nil => exact needs_ok trivial
  | cons f rest ih =>
      unfold ofForms Sound
      cases header? f with
      | none => exact ih
      | some h =>
          refine (needs_publicsOf _ _ _ _).bind fun vars _ => ?_
          exact (needs_namespaceOf h vars).bind_ok fun _ _ => trivial

end Definition

end Docsmith
