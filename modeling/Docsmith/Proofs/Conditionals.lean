import Docsmith.Proofs.Legible

/-!
# Conditionals stand for their branch

A conditional does to the reader what the text of its chosen branch does, whatever stands
before and after it: inside other collections and conditionals, and behind marks that wait.
A splice does what the texts of the items of its branch do one after the other, if no mark
takes the first of them away from the others.
-/

namespace Docsmith

open Reader Grammar

namespace Form

/-! ## Up to lines -/

mutual
theorem render_bare : (f : Form) → f.bare.render = f.render
  | .coll shape _ items => by rw [bare, render, render, renderItems_bare items]
  | .symbol _ _ => rfl
  | .nil | .bool _ | .int _ | .float _ | .str _ | .keyword _ | .regex _ | .char _ => rfl

theorem renderItems_bare : (items : List Form) → renderItems (bareItems items) = renderItems items
  | [] => rfl
  | f :: fs => by rw [bareItems, renderItems, renderItems, render_bare f, renderItems_bare fs]
end

mutual
theorem bare_mapLines (g : Nat → Nat) : (f : Form) → (f.mapLines g).bare = f.bare
  | .coll shape _ items => by rw [mapLines, bare, bare, bareItems_mapLines g items]
  | .symbol _ _ => by rw [mapLines, bare, bare]
  | .nil | .bool _ | .int _ | .float _ | .str _ | .keyword _ | .regex _ | .char _ => rfl

theorem bareItems_mapLines (g : Nat → Nat) :
    (items : List Form) → bareItems (mapLinesItems g items) = bareItems items
  | [] => rfl
  | f :: fs => by
      rw [mapLinesItems, bareItems, bareItems, bare_mapLines g f, bareItems_mapLines g fs]
end

/-- What a text is read as, or why not, with all lines set to zero. -/
def readUpToLines (features : List Text) (t : Text) : Except ReadError (List Form) :=
  relocate (fun _ => 0) (List.map (mapLines fun _ => 0)) (readAll features t)

theorem readTokens_mapLines (g : Nat → Nat) (features : List Text) (ts : List Token) :
    readTokens features (ts.map (Token.mapLines g)) =
      relocate g (List.map (mapLines g)) (readTokens features ts) :=
  readTokens_append g (show readTokens features [] = .ok [] from rfl) ts

theorem readUpToLines_eq (features : List Text) (t : Text) :
    readUpToLines features t =
      match Token.lex t with
      | (ts, []) => readTokens features ts
      | (_, c :: _) => .error (.unreadable c 0) := by
  rw [readUpToLines, readAll, Token.tokenize_eq, Token.lex_eq 1]
  cases Token.scan 1 t with
  | mk ts last =>
      cases last with
      | nil => exact (readTokens_mapLines (fun _ => 0) features ts).symm
      | cons c r => rfl

/-- Wherever they may end, the texts are cut into tokens that do the same, from any state
that is ready for them. -/
def Alike (features : List Text) (ready : State → Prop) (t t' : Text) : Prop :=
  ∃ us us', (∀ u, Piece.Ends u → Token.lex (t ++ u) = (us ++ (Token.lex u).1, (Token.lex u).2)) ∧
    (∀ u, Piece.Ends u → Token.lex (t' ++ u) = (us' ++ (Token.lex u).1, (Token.lex u).2)) ∧
    ∀ s, ready s → run features s us = run features s us'

/-- Between line feeds a text adds its tokens, and nothing around it is cut otherwise. -/
theorem readUpToLines_between (features : List Text) {pre mid : Text} {ts us : List Token}
    (hpre : Token.lex pre = (ts, []))
    (hmid : ∀ u, Piece.Ends u → Token.lex (mid ++ u) = (us ++ (Token.lex u).1, (Token.lex u).2))
    (post : Text) :
    readUpToLines features (pre ++ Text.newline :: (mid ++ Text.newline :: post)) =
      match Token.lex post with
      | (vs, []) => readTokens features (ts ++ (us ++ vs))
      | (_, c :: _) => .error (.unreadable c 0) := by
  have hgap : Text.newline.isGap = true := by decide
  have hend : (Token.lex pre).2 = [] := by rw [hpre]
  rw [readUpToLines_eq, Token.lex_append_newline hend, hpre, hmid _ (Piece.ends_gap hgap post),
    Token.lex_gap hgap]
  cases Token.lex post with
  | mk vs last => cases last <;> rfl

theorem Alike.readUpToLines_eq {features : List Text} {ready : State → Prop} {mid mid' : Text}
    (h : Alike features ready mid mid') {pre : Text} {ts : List Token}
    (hpre : Token.lex pre = (ts, []))
    (hready : ∀ s, run features State.start ts = .ok s → ready s) (post : Text) :
    readUpToLines features (pre ++ Text.newline :: (mid ++ Text.newline :: post)) =
      readUpToLines features (pre ++ Text.newline :: (mid' ++ Text.newline :: post)) := by
  obtain ⟨us, us', hmid, hmid', hrun⟩ := h
  have htokens (vs : List Token) :
      readTokens features (ts ++ (us ++ vs)) = readTokens features (ts ++ (us' ++ vs)) := by
    simp only [readTokens, run_append]
    cases hts : run features State.start ts with
    | error e => rfl
    | ok s =>
        simp only [bind, Except.bind] at hrun ⊢
        rw [hrun s (hready s hts)]
  rw [readUpToLines_between features hpre hmid, readUpToLines_between features hpre hmid']
  simp only [htokens]

/-! ## Forms that are read back -/

/-- The form is read back from its text, but for lines and metadata, which are not written. -/
def ReadsBack (f : Form) : Prop :=
  ∃ features g, readAll features f.render = .ok [g] ∧ g.bare = f.bare

/-- The tokens that a form is written as, and the form that they are read as wherever they
stand. -/
structure Reads (f g : Form) (ts : List Token) : Prop where
  legible : Legible f.bare
  scans : Token.Scans f.render ts
  reads (features : List Text) : readTokens features ts = .ok [g]
  bare : g.bare = f.bare

theorem Legible.bare {f : Form} (h : Legible f) : Legible f.bare := by
  induction h with
  | run atoms => exact .run (by rwa [render_bare])
  | str s => exact .str s
  | regex quotable => exact .regex quotable
  | char named => exact .char named
  | coll line _ ih =>
      rw [bare_coll]
      exact .coll 0 (List.forall_mem_map.2 ih)

theorem ReadsBack.exists_reads {f : Form} (h : ReadsBack f) : ∃ g ts, Reads f g ts := by
  obtain ⟨features, g, hread, hbare⟩ := h
  have hrender : f.render = g.render := by rw [← render_bare f, ← hbare, render_bare g]
  have hlegible := legible_of_readAll hread g (by simp)
  obtain ⟨ts, hscans⟩ := hlegible.exists_scans
  rw [← hrender] at hscans
  obtain ⟨toks, htoks, hforms⟩ := exists_of_bind_eq_ok hread
  obtain rfl : toks.map (Token.mapLines fun _ => 0) = ts :=
    congrArg Prod.fst ((Token.lex_of_tokenize htoks).symm.trans hscans.lex_eq)
  refine ⟨g.mapLines fun _ => 0, _, hbare ▸ hlegible.bare, hscans, fun features' => ?_, ?_⟩
  · rw [readTokens_of_unconditional hscans.unconditional features' features,
      readTokens_mapLines, hforms]
    rfl
  · rw [bare_mapLines, hbare]

/-! ## Branches -/

def branchItems (branches : List (Text × Form)) : List Form :=
  branches.flatMap fun b => [.keyword b.1, b.2]

def conditionalText (o : Opener) (branches : List (Text × Form)) : Text :=
  o.text ++ Text.join " " (renderItems (branchItems branches)) ++ o.closer.text

def chosen? (features : List Text) (branches : List (Text × Form)) : Option Form :=
  (branches.find? fun (b : Text × Form) => features.contains b.1 || b.1 = "default").map Prod.snd

theorem even_length_branchItems (branches : List (Text × Form)) :
    Even (branchItems branches).length := by
  induction branches with
  | nil => exact .zero
  | cons b branches ih => exact ih.add ⟨1, rfl⟩

theorem chosen?_cons (features : List Text) (b : Text × Form) (branches : List (Text × Form)) :
    chosen? features (b :: branches) =
      if features.contains b.1 || b.1 = "default" then some b.2 else chosen? features branches := by
  rw [chosen?, List.find?_cons]
  split <;> simp_all [chosen?]

theorem selects_branchItems (features : List Text) (branches : List (Text × Form)) :
    Selects features (branchItems branches) (chosen? features branches) := by
  induction branches with
  | nil => exact .nothing
  | cons b branches ih =>
      rw [chosen?_cons]
      split
      case isTrue hon =>
        exact .here ((enabled_iff b.1).1 hon)
      case isFalse hoff =>
        exact .later (mt (enabled_iff b.1).2 hoff) ih

def ReadsBranches (branches read : List (Text × Form)) : Prop :=
  List.Forall₂ (fun b e => e.1 = b.1 ∧ ∃ ts, Reads b.2 e.2 ts) branches read

theorem readTokens_concat {features : List Text} {ts us : List Token} {fs gs : List Form}
    (ht : readTokens features ts = .ok fs) (hu : readTokens features us = .ok gs) :
    readTokens features (ts ++ us) = .ok (fs ++ gs) := by
  rw [readTokens_eq_ok_iff, run_append, readTokens_eq_ok_iff.1 ht]
  change run features ⟨fs.reverse, []⟩ us = _
  rw [run_of_readTokens hu (u := ⟨fs.reverse, []⟩) (.inl trivial)]
  simp [deliver]

theorem exists_readsBranches {branches : List (Text × Form)}
    (h : ∀ b ∈ branches, ReadsBack (.keyword b.1) ∧ ReadsBack b.2) :
    ∃ read us, ReadsBranches branches read ∧
      Token.Scans (Text.join " " (renderItems (branchItems branches))) us ∧
      ∀ features, readTokens features us = .ok (branchItems read) := by
  induction branches with
  | nil => exact ⟨[], [], .nil, Token.scans_nil, fun _ => rfl⟩
  | cons b branches ih =>
      obtain ⟨⟨hkey, hform⟩, hrest⟩ := List.forall_mem_cons.1 h
      obtain ⟨key, ks, hks⟩ := hkey.exists_reads
      obtain ⟨f, ts, hts⟩ := hform.exists_reads
      obtain ⟨read, us, hread, hscans, htokens⟩ := ih hrest
      obtain rfl : key = .keyword b.1 := by
        have hbare := hks.bare
        cases key <;> simp_all [Form.bare, ofName]
      refine ⟨(b.1, f) :: read, ks ++ (ts ++ us), .cons ⟨rfl, ts, hts⟩ hread,
        scans_join_cons hks.scans (scans_join_cons hts.scans hscans), fun features => ?_⟩
      have hbranch := readTokens_concat (hks.reads features) (hts.reads features)
      rw [← List.append_assoc]
      exact readTokens_concat hbranch (htokens features)

theorem ReadsBranches.chosen? {branches read : List (Text × Form)} (h : ReadsBranches branches read)
    (features : List Text) :
    Option.Rel (fun f g => ∃ ts, Reads f g ts) (Form.chosen? features branches)
      (Form.chosen? features read) := by
  induction h with
  | nil => exact .none
  | @cons b e branches read hbe _ ih =>
      obtain ⟨hkey, hreads⟩ := hbe
      rw [chosen?_cons, chosen?_cons, hkey]
      split
      · exact .some hreads
      · exact ih

/-! ## Any context -/

theorem run_conditional {features : List Text} {o : Opener} {us : List Token} {fs gs : List Form}
    (h : readTokens features us = .ok fs) (closes : Closes features o 0 fs gs) (s : State) :
    run features s (⟨.opener o, 0⟩ :: (us ++ [⟨.closer o.closer, 0⟩])) =
      deliver s.forms s.stack gs := by
  rw [run_enclosed h, (ofCollection_eq_ok_iff o 0 fs gs).2 closes]
  rfl

theorem Reads.exists_items {shape : Shape} {line : Nat} {es : List Form} {g : Form}
    {ts : List Token} (h : Reads (.coll shape line es) g ts) :
    ∃ start gs us, g = .coll shape start gs ∧ gs.length = es.length ∧
      Token.Scans (Text.join " " (renderItems es)) us ∧
      ∀ features, readTokens features us = .ok gs := by
  have hlegible := h.legible
  rw [bare_coll] at hlegible
  have hitems : ∀ e ∈ es.map Form.bare, ∃ ts, Token.Scans e.render ts := fun e he =>
    (hlegible.item e he).exists_scans
  obtain ⟨us, hus⟩ := exists_scans_of_forall hitems
  rw [← bareItems_eq, renderItems_bare] at hus
  have hwhole := hus.enclosed (isConditional_opener shape)
  rw [← render_coll shape line] at hwhole
  obtain rfl := congrArg Prod.fst (h.scans.lex_eq.symm.trans hwhole.lex_eq)
  obtain ⟨gs, hgs, hclosed⟩ := exists_readTokens_of_enclosed hus.balanced (h.reads [])
  have hg : g = .coll shape 0 gs := by
    cases shape with
    | map =>
        simp only [opener, ofCollection] at hclosed
        split at hclosed <;> simp_all
    | _ => simpa [opener, ofCollection, eq_comm] using hclosed
  have hbare := h.bare
  rw [hg, bare_coll, bare_coll] at hbare
  have hlength : gs.length = es.length := by
    simpa using congrArg List.length (Form.coll.inj hbare).2.2
  refine ⟨0, gs, us, hg, hlength, hus, fun features => ?_⟩
  rw [readTokens_of_unconditional hus.unconditional features [], hgs]

theorem gathers_map_iff (g : Nat → Nat) (stack : List Frame) :
    Gathers (stack.map (Frame.mapLines g)) ↔ Gathers stack := by
  cases stack with
  | nil => exact Iff.rfl
  | cons frame stack => cases frame <;> exact Iff.rfl

theorem ready_of_run {features : List Text} {ts : List Token} {es : List Form}
    (ready : ∀ s, run features State.start ts = .ok s → Ready s.stack es) (s : State)
    (h : run features State.start (ts.map (Token.mapLines fun _ => 0)) = .ok s) :
    Ready s.stack es := by
  have hresume := run_resume (fun _ => 0) [] features State.start ts
  change run features State.start _ = _ at hresume
  rw [h] at hresume
  cases hrun : run features State.start ts with
  | error e =>
      rw [hrun] at hresume
      cases hresume
  | ok v =>
      rw [hrun] at hresume
      obtain rfl : s = v.resume (fun _ => 0) [] := Except.ok.inj hresume
      exact (ready v hrun).imp_left (gathers_map_iff _ v.stack).2

theorem alike_conditional {features : List Text} {branches read : List (Text × Form)}
    {us vs : List Token} {t : Text} {gs : List Form} {ready : State → Prop} {o : Opener}
    (hscans : Token.Scans (Text.join " " (renderItems (branchItems branches))) us)
    (htokens : readTokens features us = .ok (branchItems read))
    (closes : Closes features o 0 (branchItems read) gs) (ht : Token.Scans t vs)
    (hrun : ∀ s, ready s → run features s vs = deliver s.forms s.stack gs) :
    Alike features ready (conditionalText o branches) t := by
  refine ⟨_, vs, fun u _ => hscans.lex_enclosed o u, ht.lex, fun s hs => ?_⟩
  rw [run_conditional htokens closes, hrun s hs]

theorem alike_chosen (features : List Text) {branches : List (Text × Form)}
    (back : ∀ b ∈ branches, ReadsBack (.keyword b.1) ∧ ReadsBack b.2) :
    Alike features (fun _ => True) (conditionalText .conditional branches)
      (((chosen? features branches).map render).getD []) := by
  obtain ⟨read, us, hread, hscans, htokens⟩ := exists_readsBranches back
  have closes := Closes.conditional 0 (even_length_branchItems read)
    (selects_branchItems features read)
  have hchosen := hread.chosen? features
  generalize chosen? features branches = choice at hchosen
  generalize chosen? features read = choice' at hchosen closes
  cases hchosen with
  | none =>
      refine alike_conditional hscans (htokens features) closes Token.scans_nil fun s _ => ?_
      exact (deliver_nil s.forms s.stack).symm
  | some h =>
      obtain ⟨vs, hvs⟩ := h
      refine alike_conditional hscans (htokens features) closes hvs.scans fun s _ => ?_
      exact run_of_readTokens (hvs.reads features) (.inr (by simp))

theorem alike_spliced (features : List Text) {branches : List (Text × Form)}
    (back : ∀ b ∈ branches, ReadsBack (.keyword b.1) ∧ ReadsBack b.2) {es : List Form}
    (takes : Takes true (chosen? features branches) es) :
    Alike features (fun s => Ready s.stack es) (conditionalText .splice branches)
      (Text.join " " (renderItems es)) := by
  obtain ⟨read, us, hread, hscans, htokens⟩ := exists_readsBranches back
  have even := even_length_branchItems read
  have selects := selects_branchItems features read
  have hchosen := hread.chosen? features
  generalize chosen? features branches = choice at hchosen takes
  generalize chosen? features read = choice' at hchosen selects
  rcases takes with ⟨rfl, rfl⟩ | ⟨shape, start, rfl, sequence⟩
  · cases hchosen
    refine alike_conditional hscans (htokens features) (.spliceNothing 0 even selects)
      Token.scans_nil fun s _ => ?_
    exact (deliver_nil s.forms s.stack).symm
  · cases hchosen with
    | some h =>
        obtain ⟨ts, hts⟩ := h
        obtain ⟨line, gs, vs, rfl, hlength, hvs, hreads⟩ := hts.exists_items
        refine alike_conditional hscans (htokens features) (.splice 0 even selects sequence) hvs
          fun s hs => ?_
        refine run_of_readTokens (hreads features) (hs.imp_right fun hl => ?_)
        omega

/-- A conditional does what the text of its chosen branch does, in every context.  So does
a splice with the texts of the items of its branch, where no mark waits for one form of
several. -/
theorem readUpToLines_conditional (features : List Text) {pre : Text} {ts : List Token}
    (hpre : Token.tokenize pre = .ok ts) (post : Text) {branches : List (Text × Form)}
    (back : ∀ b ∈ branches, ReadsBack (.keyword b.1) ∧ ReadsBack b.2) :
    readUpToLines features
        (pre ++ Text.newline :: (conditionalText .conditional branches ++ Text.newline :: post)) =
      readUpToLines features
        (pre ++ Text.newline ::
          (((chosen? features branches).map render).getD [] ++ Text.newline :: post)) ∧
    ∀ es, Takes true (chosen? features branches) es →
      (∀ s, run features State.start ts = .ok s → Ready s.stack es) →
      readUpToLines features
          (pre ++ Text.newline :: (conditionalText .splice branches ++ Text.newline :: post)) =
        readUpToLines features
          (pre ++ Text.newline :: (Text.join " " (renderItems es) ++ Text.newline :: post)) := by
  have hlex := Token.lex_of_tokenize hpre
  constructor
  · exact (alike_chosen features back).readUpToLines_eq hlex (fun _ _ => trivial) post
  · intro es takes ready
    exact (alike_spliced features back takes).readUpToLines_eq hlex (ready_of_run ready) post

/-- A branch behind a quote in a map, and its items in a list. -/
theorem readUpToLines_quoted_and_spliced :
    let branches : List (Text × Form) :=
      [("cljs", .bool false), ("clj", .coll .vector 1 [.bool true, .nil])]
    readUpToLines [Text.ofString "clj"]
        ("\x7b:k '" ++ Text.newline :: (conditionalText .conditional branches ++
          Text.newline :: "\x7d")) =
      .ok [.coll .map 0 [.keyword "k",
        .coll .list 0 [ofName "quote", .coll .vector 0 [.bool true, .nil]]]] ∧
    readUpToLines [Text.ofString "clj"]
        ("(nil" ++ Text.newline :: (conditionalText .splice branches ++ Text.newline :: ")")) =
      .ok [.coll .list 0 [.nil, .bool true, .nil]] := by
  intro branches
  have plain {f : Form} (h : Plain f) : ReadsBack f := ⟨[], exists_readAll_render h⟩
  have back : ∀ b ∈ branches, ReadsBack (.keyword b.1) ∧ ReadsBack b.2 := by
    have hvector : Plain (.coll .vector 1 [.bool true, .nil]) := by
      refine .coll 1 nofun ?_
      simpa using ⟨Plain.bool true, Plain.nil⟩
    simp only [branches, List.forall_mem_cons]
    exact ⟨⟨plain (.keyword (by decide) (by decide)), plain (.bool false)⟩,
      ⟨plain (.keyword (by decide) (by decide)), plain hvector⟩, by simp⟩
  have hmap : Piece.Cuts "\x7b:k '" _ [] :=
    .piece rfl (.piece rfl (.piece rfl (.piece rfl (.done _))))
  have hlist : Piece.Cuts "(nil" _ [] := .piece rfl (.piece rfl (.done _))
  have hquoted := (readUpToLines_conditional [Text.ofString "clj"]
    (Token.tokenize_of_cuts hmap) "\x7d" back).1
  have hspliced := (readUpToLines_conditional [Text.ofString "clj"]
    (Token.tokenize_of_cuts hlist) ")" back).2 [.bool true, .nil]
    (.inr ⟨.vector, 1, rfl, .inr rfl⟩) (fun s hs => by cases hs; exact .inl trivial)
  have hmapped : Piece.Cuts "\x7b:k '\n[true nil]\n\x7d" _ [] :=
    .piece rfl (.piece rfl (.piece rfl (.piece rfl (.piece rfl (.piece rfl (.piece rfl (.piece rfl
      (.piece rfl (.piece rfl (.piece rfl (.piece rfl (.done _))))))))))))
  have hlisted : Piece.Cuts "(nil\ntrue nil\n)" _ [] :=
    .piece rfl (.piece rfl (.piece rfl (.piece rfl (.piece rfl (.piece rfl (.piece rfl (.piece rfl
      (.done _))))))))
  constructor
  · rw [hquoted]
    change readUpToLines _ (Text.ofString "\x7b:k '\n[true nil]\n\x7d") = _
    rw [readUpToLines_eq, Token.lex_of_tokenize (Token.tokenize_of_cuts hmapped)]
    rfl
  · rw [hspliced]
    change readUpToLines _ (Text.ofString "(nil\ntrue nil\n)") = _
    rw [readUpToLines_eq, Token.lex_of_tokenize (Token.tokenize_of_cuts hlisted)]
    rfl

end Form

end Docsmith
