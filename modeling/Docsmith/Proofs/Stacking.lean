import Docsmith.Proofs.Sections
import Docsmith.Proofs.Verbatim

/-!
# Metadata before metadata

Any number of metadata forms may stand before a symbol.  They are applied from the right to the
left, each over those before, and so the leftmost form that has an entry decides on it.
-/

namespace Docsmith

open Reader Grammar

theorem Table.get?_update_reverse {κ ν : Type} [DecidableEq κ] (t u : Table κ ν) (k : κ) :
    (Table.update t u).get? k = (Table.get? u.reverse k).or (t.get? k) := by
  induction u generalizing t with
  | nil => rfl
  | cons e u ih =>
      have hstep : update t (e :: u) = update (insert e.1 e.2 t) u := rfl
      have hlast : Table.get? (u.reverse ++ [e]) k = (Table.get? u.reverse k).or (get? [e] k) := by
        simp only [get?, List.find?_append, Option.map_or]
      rw [hstep, ih, List.reverse_cons, hlast, get?_cons, Option.or_assoc]
      by_cases hk : e.1 = k
      · subst hk
        rw [if_pos rfl, get?_insert_self]
        rfl
      · rw [if_neg hk, get?_insert_of_ne (Ne.symm hk)]
        rfl

namespace Form

/-! ## One form -/

/-- What a form says as metadata under a name: a keyword is a flag, a symbol or a string is the
tag, and of the entries of a map the last counts. -/
def gives? (f : Form) (key : Text) : Option Form :=
  match f with
  | .keyword name => if name = key then some (.bool true) else none
  | .symbol name _ => if key = "tag" then some (.str name) else none
  | .str s => if key = "tag" then some (.str s) else none
  | .coll .map _ items =>
      ((pairs items).reverse.find? fun e => e.1.entryName = key).map Prod.snd
  | _ => none

theorem get?_entries (f : Form) (key : Text) : f.entries.get? key = f.gives? key := by
  cases f with
  | keyword name => exact Table.get?_cons _ _ _
  | symbol name attrs => simp only [entries, gives?, Table.get?_cons, eq_comm]; rfl
  | str s => simp only [entries, gives?, Table.get?_cons, eq_comm]; rfl
  | coll shape line items =>
      cases shape with
      | map =>
          rw [entries, Table.ofList, Table.get?_update_reverse, ← List.map_reverse, Table.get?,
            List.find?_map, Option.map_map]
          exact Option.or_none
      | _ => rfl
  | _ => rfl

theorem nodup_entries (f : Form) : (f.entries.map Prod.fst).Nodup := by
  cases f with
  | keyword | symbol | str => exact List.pairwise_singleton _ _
  | coll shape line items =>
      cases shape with
      | map => exact Table.nodup_update (t := []) .nil _
      | _ => exact .nil
  | _ => exact .nil

theorem get?_relocateAttrs (g : Nat → Nat) (attrs : Attrs) (key : Text) :
    (relocateAttrs g attrs).get? key = (attrs.get? key).map (mapLines g) := by
  simp [relocateAttrs, Table.get?, List.find?_map, Function.comp_def]

theorem map_fst_relocateAttrs (g : Nat → Nat) (attrs : Attrs) :
    (relocateAttrs g attrs).map Prod.fst = attrs.map Prod.fst := by
  simp [relocateAttrs, Function.comp_def]

theorem get?_entries_mapLines {f : Form} (h : f.labelable = true) (g : Nat → Nat) (key : Text) :
    (f.mapLines g).entries.get? key = (f.gives? key).map (mapLines g) := by
  have hlines := toAttrs_mapLines g f
  rw [toAttrs_of_labelable h, toAttrs_of_labelable ((labelable_mapLines g f).trans h)] at hlines
  rw [Except.ok.inj hlines, get?_relocateAttrs, get?_entries]

/-- The form is read back from its text, but for lines. -/
def ReadsUnchanged (f : Form) : Prop :=
  ∃ features g, readAll features f.render = .ok [g] ∧
    g.mapLines (fun _ => 0) = f.mapLines fun _ => 0

theorem ReadsUnchanged.exists_reads {f : Form} (h : ReadsUnchanged f) :
    ∃ ts, Reads f (f.mapLines fun _ => 0) ts := by
  obtain ⟨features, g, hread, hsame⟩ := h
  have hbare : g.bare = f.bare := by
    rw [← bare_mapLines (fun _ => 0) g, hsame, bare_mapLines]
  obtain ⟨g', ts, hreads⟩ := ReadsBack.exists_reads ⟨features, g, hread, hbare⟩
  have hlines : readUpToLines features f.render = .ok [g.mapLines fun _ => 0] := by
    rw [readUpToLines, hread]
    rfl
  rw [readUpToLines_eq, hreads.scans.lex_eq] at hlines
  have hg : [g'] = [g.mapLines fun _ => 0] :=
    Except.ok.inj ((hreads.reads features).symm.trans hlines)
  rw [← hsame, ← List.singleton_inj.1 hg]
  exact ⟨ts, hreads⟩

theorem ReadsUnchanged.labelable {f : Form} (h : ReadsUnchanged f) : f.labelable = true := by
  obtain ⟨ts, hreads⟩ := h.exists_reads
  rw [← labelable_mapLines (fun _ => 0)]
  exact hreads.labelable

/-! ## Any number of forms -/

theorem scans_name {name : Text} (named : SymbolName name) :
    Token.Scans name [⟨.atom name, 0⟩] :=
  Token.scans_leaf rfl fun _ hu => Piece.next?_atom named.toPlainAtom hu.boundary

theorem run_name {name : Text} (named : SymbolName name) (features : List Text) (s : State) :
    run features s [⟨.atom name, 0⟩] = deliver s.forms s.stack [ofName name] := by
  have hsign : name.head? ≠ some (CodePoint.ofChar '#') := fun hhead =>
    named.start _ hhead (by decide)
  rw [run_cons, step_of_denotes (.atom hsign (ofAtom_of_isName named.toIsName))]
  cases deliver s.forms s.stack [ofName name] <;> rfl

theorem exists_annotated {name : Text} (named : SymbolName name) {ms : List Form}
    (unchanged : ∀ m ∈ ms, ReadsUnchanged m) :
    ∃ (ts : List Token) (attrs : Attrs), Token.Scans (annotatedText ms name) ts ∧
      (∀ features s, run features s ts = deliver s.forms s.stack [.symbol name attrs]) ∧
      (attrs.map Prod.fst).Nodup ∧
      ∀ key, attrs.get? key =
        (ms.findSome? fun m => m.gives? key).map (mapLines fun _ => 0) := by
  induction ms with
  | nil => exact ⟨_, [], scans_name named, run_name named, .nil, fun _ => rfl⟩
  | cons m ms ih =>
      obtain ⟨hm, hms⟩ := List.forall_mem_cons.1 unchanged
      obtain ⟨ts, hts⟩ := hm.exists_reads
      obtain ⟨us, attrs, hus, hrun, hnodup, hget⟩ := ih hms
      refine ⟨_, Table.update attrs (m.mapLines fun _ => 0).entries,
        scans_annotated hts.scans hus, fun features s => ?_, ?_, fun key => ?_⟩
      · exact run_annotated hts (hrun features) s
      · exact Table.nodup_update hnodup _
      · rw [Table.get?_update (nodup_entries _), get?_entries_mapLines hm.labelable, hget,
          List.findSome?_cons]
        cases m.gives? key <;> rfl

/-- A name behind any number of metadata forms is read as one symbol.  Its metadata have just the
names under which one of the forms says something, each with what the leftmost of these says. -/
theorem metadata_leftmost_first (features : List Text) {name : Text} (named : SymbolName name)
    {ms : List Form} (unchanged : ∀ m ∈ ms, ReadsUnchanged m) :
    (∀ m ∈ ms, ∃ own, m.toAttrs = .ok own ∧ ∀ key, own.get? key = m.gives? key) ∧
    ∃ attrs : Attrs, readAll features (annotatedText ms name) = .ok [.symbol name attrs] ∧
      (attrs.map Prod.fst).Nodup ∧
      ∀ key, (attrs.get? key).map (mapLines fun _ => 0) =
        (ms.findSome? fun m => m.gives? key).map (mapLines fun _ => 0) := by
  constructor
  · intro m hm
    exact ⟨m.entries, toAttrs_of_labelable (unchanged m hm).labelable, get?_entries m⟩
  · obtain ⟨ts, attrs, hscans, hrun, hnodup, hget⟩ := exists_annotated named unchanged
    have hlines : readUpToLines features (annotatedText ms name) = .ok [.symbol name attrs] := by
      rw [readUpToLines_eq, hscans.lex_eq]
      exact readTokens_eq_ok_iff.2 (hrun features State.start)
    match hread : readAll features (annotatedText ms name) with
    | .error e =>
        rw [readUpToLines, hread] at hlines
        cases hlines
    | .ok fs =>
        rw [readUpToLines, hread] at hlines
        obtain ⟨f, rfl, hf⟩ := List.map_eq_singleton_iff.1 (Except.ok.inj hlines)
        cases f with
        | symbol own read =>
            rw [mapLines_symbol] at hf
            obtain ⟨rfl, rfl⟩ := Form.symbol.inj hf
            rw [← relocateAttrs, map_fst_relocateAttrs] at hnodup
            refine ⟨read, rfl, hnodup, fun key => ?_⟩
            rw [← get?_relocateAttrs]
            exact hget key
        | coll => simp at hf
        | _ => cases hf

theorem readsUnchanged_of_cuts {f : Form} {ps : List Piece} (cuts : Piece.Cuts f.render ps [])
    (reads : readTokens [] (Token.ofPieces 1 ps) = .ok [f]) : ReadsUnchanged f := by
  refine ⟨[], f, ?_, rfl⟩
  rw [readAll, Token.tokenize_of_cuts cuts]
  exact reads

/-- A flag, a map that names it otherwise and a tag twice, a tag, and a number. -/
def stackedForms : List Form :=
  [.keyword "a", .coll .map 1 [.keyword "a", .nil, .keyword "tag", .int 1, .str "tag", .int 2],
    ofName "T", .int 3]

/-- The flag comes from the first form, the tag from the last entry of the second. -/
theorem metadata_leftmost_first_stackedForms :
    annotatedText stackedForms "x" = "^:a ^\x7b:a nil :tag 1 \"tag\" 2\x7d ^T ^3 x" ∧
      ∃ attrs : Attrs, readAll ["clj"] (annotatedText stackedForms "x") = .ok [.symbol "x" attrs] ∧
        (attrs.get? "a").map (mapLines fun _ => 0) = some (.bool true) ∧
        (attrs.get? "tag").map (mapLines fun _ => 0) = some (.int 2) ∧
        (attrs.get? "b").map (mapLines fun _ => 0) = none := by
  have named : SymbolName "x" := ⟨⟨by decide, by decide, by decide⟩,
    ⟨by decide, by decide, by decide, by decide, by decide, by decide, by decide⟩⟩
  have hflag : Piece.Cuts (render (.keyword "a")) _ [] := .piece rfl (.done _)
  have hmap : Piece.Cuts (render (.coll .map 1
      [.keyword "a", .nil, .keyword "tag", .int 1, .str "tag", .int 2])) _ [] :=
    .piece rfl (.piece rfl (.piece rfl (.piece rfl (.piece rfl (.piece rfl (.piece rfl (.piece rfl
      (.piece rfl (.piece rfl (.piece rfl (.piece rfl (.piece rfl (.done _)))))))))))))
  have htag : Piece.Cuts (render (ofName "T")) _ [] := .piece rfl (.done _)
  have hnumber : Piece.Cuts (render (.int 3)) _ [] := .piece rfl (.done _)
  have unchanged : ∀ m ∈ stackedForms, ReadsUnchanged m := by
    simp only [stackedForms, List.forall_mem_cons]
    exact ⟨readsUnchanged_of_cuts hflag rfl, readsUnchanged_of_cuts hmap rfl,
      readsUnchanged_of_cuts htag rfl, readsUnchanged_of_cuts hnumber rfl, nofun⟩
  obtain ⟨-, attrs, hread, -, hget⟩ := metadata_leftmost_first ["clj"] named unchanged
  refine ⟨by decide, attrs, hread, ?_, ?_, ?_⟩
  · rw [hget]
    rfl
  · rw [hget]
    rfl
  · rw [hget]
    rfl

end Form

end Docsmith
