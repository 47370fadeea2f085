import Docsmith.Proofs.Locality
import Docsmith.Proofs.Openings
import Docsmith.Proofs.Readings
import Docsmith.Proofs.Privacy
import Docsmith.Proofs.Recovery

/-!
# Lines follow the source

A collection has a place in its text, where the token begins that opens it, and its line is the
line of that place.  The collections of a text come in the order of their places, so their lines
do not decrease; neither do those of the variables that the lists among them define.
-/

namespace Docsmith

/-- The number of the line on which a place of the text lies. -/
def Text.lineAt (t : Text) (i : Nat) : Nat := 1 + Text.countNewlines (t.take i)

theorem Text.lineAt_mono (t : Text) {i j : Nat} (h : i ≤ j) : t.lineAt i ≤ t.lineAt j := by
  have hsub : (t.take i).Sublist (t.take j) := (List.take_prefix_take_left h).sublist
  exact Nat.add_le_add_left hsub.countP_le 1

theorem Text.lineAt_le (t : Text) (i : Nat) : t.lineAt i ≤ 1 + t.countNewlines :=
  Nat.add_le_add_left (List.take_sublist i t).countP_le 1

theorem Text.lineAt_add {t s u : Text} {i : Nat} (h : t.drop i = s ++ u) :
    t.lineAt (i + s.length) = t.lineAt i + s.countNewlines := by
  have htake : t.take (i + s.length) = t.take i ++ s := by
    rw [List.take_add, h, List.take_left]
  rw [lineAt, htake, lineAt, countNewlines, List.countP_append, Nat.add_assoc]
  rfl

namespace Form

def OpenedAt (features : List Text) (t : Text) (i : Nat) (c : Form) : Prop :=
  ∃ ps l qs, Piece.Cuts t ps (t.drop i) ∧ Piece.Cuts (t.drop i) (.lexeme l :: qs) [] ∧
    Grammar.Opens features (Token.ofPieces (t.lineAt i) (.lexeme l :: qs)) c

variable {features : List Text} {t : Text}

theorem OpenedAt.line {i : Nat} {c : Form} (h : OpenedAt features t i c) :
    c.line? = some (t.lineAt i) := by
  obtain ⟨ps, l, qs, -, -, hopens⟩ := h
  exact hopens.line

/-- The induction is on the pieces that are left at a place: a lexeme among them may open the
next collection, and the others lie behind it. -/
theorem exists_places {u last : Text} {ps qs : List Piece} (hps : Piece.Cuts t ps u)
    (hqs : Piece.Cuts u qs last) (hlast : last = []) {i : Nat} (hi : t.drop i = u)
    {cs : List Form}
    (hcs : Grammar.OpensEach features (Token.ofPieces (t.lineAt i) qs) cs) :
    ∃ places, (∀ j ∈ places, i ≤ j) ∧ places.Pairwise (· < ·) ∧
      List.Forall₂ (OpenedAt features t) places cs := by
  induction hqs generalizing ps i cs with
  | done =>
      cases hcs
      exact ⟨[], nofun, .nil, .nil⟩
  | @piece u rest last p qs first more ih =>
      have htext := Piece.text_append_of_next? first
      have hlen := List.length_pos_iff.2 (Piece.text_ne_nil_of_next? first)
      have hdrop : t.drop (i + p.text.length) = rest := by
        rw [← List.drop_drop, hi, ← htext, List.drop_left]
      have hline := Text.lineAt_add (hi.trans htext.symm)
      have hnext {ds : List Form} (hds : Grammar.OpensEach features
          (Token.ofPieces (t.lineAt i + p.text.countNewlines) qs) ds) :=
        ih (hps.append (.piece first (.done rest))) hlast hdrop (hline ▸ hds)
      cases p with
      | blank | comment =>
          obtain ⟨places, hfrom, hplaces⟩ := hnext hcs
          exact ⟨places, fun j hj => by have := hfrom j hj; omega, hplaces⟩
      | lexeme l =>
          cases hcs with
          | nil => exact ⟨[], nofun, .nil, .nil⟩
          | skip _ hrest =>
              obtain ⟨places, hfrom, hplaces⟩ := hnext hrest
              exact ⟨places, fun j hj => by have := hfrom j hj; omega, hplaces⟩
          | here hopens hrest =>
              obtain ⟨places, hfrom, hincreasing, hplaces⟩ := hnext hrest
              have hbehind : ∀ j ∈ places, i < j := fun j hj => by
                have := hfrom j hj
                omega
              have hopened : OpenedAt features t i _ :=
                ⟨ps, l, qs, hi ▸ hps, hi ▸ hlast ▸ .piece first more, hopens⟩
              refine ⟨i :: places, ?_, List.pairwise_cons.2 ⟨hbehind, hincreasing⟩,
                .cons hopened hplaces⟩
              exact List.forall_mem_cons.2 ⟨Nat.le_refl i, fun j hj => (hbehind j hj).le⟩

theorem exists_derives_of_readAll {fs : List Form} (h : readAll features t = .ok fs) :
    ∃ ps, Piece.Cuts t ps [] ∧ Grammar.Derives features .items (Token.ofPieces 1 ps) fs := by
  obtain ⟨ts, hts, hread⟩ := exists_of_bind_eq_ok h
  have hscan := Token.tokenize_eq_ok_iff.1 hts
  have hcuts := Piece.cuts_all t
  rw [show (Piece.all t).2 = [] from congrArg Prod.snd hscan] at hcuts
  have htokens : Token.ofPieces 1 (Piece.all t).1 = ts := congrArg Prod.fst hscan
  exact ⟨_, hcuts, htokens ▸ Reader.derives_of_readTokens hread⟩

theorem exists_places_of_readAll {fs : List Form} (h : readAll features t = .ok fs)
    {cs : List Form} (hsub : cs.Sublist (collectionsIn fs)) :
    ∃ places, places.Pairwise (· < ·) ∧ List.Forall₂ (OpenedAt features t) places cs := by
  obtain ⟨ps, hcuts, hderives⟩ := exists_derives_of_readAll h
  obtain ⟨places, -, hplaces⟩ :=
    exists_places (.done t) hcuts rfl (i := 0) rfl (hderives.opensEach.sublist hsub)
  exact ⟨places, hplaces⟩

theorem exists_openedAt_of_holds {fs : List Form} (h : readAll features t = .ok fs) {f : Form}
    (hf : f ∈ fs) {shape : Shape} {line : Nat} {items : List Form}
    (holds : Holds (.coll shape line items) f) :
    ∃ i, OpenedAt features t i (.coll shape line items) := by
  obtain ⟨ps, hcuts, hderives⟩ := exists_derives_of_readAll h
  obtain ⟨places, -, -, hplaces⟩ :=
    exists_places (.done t) hcuts rfl (i := 0) rfl (hderives.opens_of_holds f hf holds)
  cases hplaces with
  | cons hplace _ => exact ⟨_, hplace⟩

def linesIn (fs : List Form) : List Nat := (collectionsIn fs).filterMap line?

theorem lines_of_openedAt {places : List Nat} {cs : List Form}
    (h : List.Forall₂ (OpenedAt features t) places cs) :
    cs.filterMap line? = places.map t.lineAt := by
  induction h with
  | nil => rfl
  | cons hplace _ ih => rw [List.filterMap_cons_some hplace.line, ih, List.map_cons]

/-- The lines of what is read are those of the text. -/
structure LinesFollow (features : List Text) (t : Text) (fs : List Form) : Prop where
  /-- The collections come in the order of the places where they begin. -/
  places : ∃ places, places.Pairwise (· < ·) ∧
    List.Forall₂ (OpenedAt features t) places (collectionsIn fs) ∧
    linesIn fs = places.map t.lineAt
  ordered : (linesIn fs).Pairwise (· ≤ ·)
  bounded : ∀ n ∈ linesIn fs, n ≤ 1 + t.countNewlines
  /-- Metadata is no exception, but for the order. -/
  held : ∀ f ∈ fs, ∀ shape line items, Holds (.coll shape line items) f →
    ∃ i, OpenedAt features t i (.coll shape line items) ∧ line = t.lineAt i

theorem linesFollow_of_readAll {fs : List Form} (h : readAll features t = .ok fs) :
    LinesFollow features t fs := by
  obtain ⟨places, increasing, hplaces⟩ := exists_places_of_readAll h (List.Sublist.refl _)
  have hlines : linesIn fs = places.map t.lineAt := lines_of_openedAt hplaces
  refine ⟨⟨places, increasing, hplaces, hlines⟩, ?_, ?_, ?_⟩
  · rw [hlines, List.pairwise_map]
    exact increasing.imp fun hlt => t.lineAt_mono hlt.le
  · rw [hlines, List.forall_mem_map]
    exact fun i _ => t.lineAt_le i
  · intro f hf shape line items holds
    obtain ⟨i, hi⟩ := exists_openedAt_of_holds h hf holds
    exact ⟨i, hi, Option.some.inj hi.line⟩

def topLevel (fs : List Form) : List Form := fs.filter fun f => f.line?.isSome

theorem topLevel_sublist (fs : List Form) : (topLevel fs).Sublist (collectionsIn fs) := by
  induction fs with
  | nil => exact .slnil
  | cons f fs ih =>
      cases f with
      | coll => exact (ih.trans (List.sublist_append_right _ _)).cons_cons _
      | _ => exact ih

end Form

/-! ## Definitions -/

namespace Definition

open Form

theorem line_of_toVar {name kind file : Text} {line : Nat} {b : Body} {v : Var}
    (h : toVar name kind file line b = .ok v) : v.facts.line = .int line := by
  obtain ⟨_, _, _, _, -, -, -, -, rfl⟩ := exists_of_toVar h
  rfl

theorem line_of_factories {isRecord : Bool} {ns file name fields : Text} {line : Nat} :
    ∀ v ∈ factories isRecord ns file name line fields, v.facts.line = .int line := by
  intro v hv
  obtain ⟨_, _, _, rfl, -⟩ := exists_of_mem_factories hv
  rfl

theorem line_of_publics {macros : Bool} {ns file head : Text} {line : Nat} {rest : List Form}
    {vars : List Var} (h : publics macros ns file head line rest = .ok vars) :
    ∀ v ∈ vars, v.facts.line = .int line := by
  cases publishes_of_publics h with
  | nothing => simp
  | factories => exact line_of_factories
  | single known visible body made => simpa using line_of_toVar made

theorem publics_symbolName (q : QuoteMark) (macros : Bool) (ns file : Text) (line : Nat)
    (rest : List Form) : publics macros ns file q.symbolName line rest = .ok [] := by
  cases q <;> rfl

structure DefinedAt (d : Dialect) (ns file t : Text) (i : Nat) (v : Var) : Prop where
  defined : ∃ f part, OpenedAt d.features t i f ∧ contribution d.macros ns file f = .ok part ∧
    v ∈ part
  parenthesis : Opener.paren.text <+: t.drop i ∨ Opener.fnParen.text <+: t.drop i
  line : v.facts.line = .int (t.lineAt i)

theorem definedAt_of_openedAt {d : Dialect} {ns file t : Text} {i : Nat} {f : Form}
    {part : List Var} (hopened : OpenedAt d.features t i f)
    (hpart : contribution d.macros ns file f = .ok part) :
    ∀ v ∈ part, DefinedAt d ns file t i v := by
  intro v hv
  have hdefined := hpart
  unfold contribution at hdefined
  split at hdefined
  case h_2 =>
    cases hdefined
    cases hv
  case h_1 line head attrs rest =>
    have hline := Option.some.inj hopened.line
    refine ⟨⟨_, part, hopened, hpart, hv⟩, ?_, hline ▸ line_of_publics hdefined v hv⟩
    obtain ⟨ps, l, qs, -, hcuts, hopens⟩ := hopened
    have htext := hcuts.text_append
    rw [List.flatMap_cons, List.append_assoc] at htext
    rcases hopens.lexeme with ⟨o, rfl, hshape⟩ | ⟨q, g, -, hitems⟩
    · have ho : o = .paren ∨ o = .fnParen := by cases o <;> simp_all [Grammar.shape?]
      rcases ho with rfl | rfl
      · exact .inl ⟨_, htext⟩
      · exact .inr ⟨_, htext⟩
    · injection hitems with hhead hrest
      injection hhead with hname
      rw [hname, publics_symbolName] at hdefined
      cases hdefined
      cases hv

theorem exists_places_of_parts {d : Dialect} {ns file t : Text} {forms : List Form}
    {parts : List (List Var)}
    (hparts : List.Forall₂ (fun f part => contribution d.macros ns file f = .ok part) forms parts)
    {places : List Nat} (increasing : places.Pairwise (· < ·))
    (hplaces : List.Forall₂ (OpenedAt d.features t) places (topLevel forms)) :
    ∃ begins, begins ⊆ places ∧ begins.Pairwise (· ≤ ·) ∧
      List.Forall₂ (DefinedAt d ns file t) begins parts.flatten := by
  induction hparts generalizing places with
  | nil => exact ⟨[], by simp, .nil, .nil⟩
  | @cons f part forms parts hpart _ ih =>
      cases hcoll : f.line? with
      | none =>
          have hother := contribution_of_other (f := f)
            (fun line head attrs rest hf => by simp [hf, line?] at hcoll) d.macros ns file
          rw [hother] at hpart
          cases hpart
          exact ih increasing (by simpa [topLevel, hcoll] using hplaces)
      | some line =>
          have htop : topLevel (f :: forms) = f :: topLevel forms := by simp [topLevel, hcoll]
          rw [htop] at hplaces
          cases hplaces with
          | @cons i _ places _ hfirst hrest =>
              obtain ⟨hbehind, hincreasing⟩ := List.pairwise_cons.1 increasing
              obtain ⟨begins, hsub, hordered, hbegins⟩ := ih hincreasing hrest
              refine ⟨part.map (fun _ => i) ++ begins, ?_, ?_, ?_⟩
              · simp only [List.append_subset]
                exact ⟨by simp +contextual [List.subset_def], fun j hj => .tail _ (hsub hj)⟩
              · refine List.pairwise_append.2 ⟨?_, hordered, ?_⟩
                · exact List.pairwise_map.2 (List.pairwise_of_forall fun _ _ => Nat.le_refl i)
                · intro a ha b hb
                  obtain ⟨-, -, rfl⟩ := List.mem_map.1 ha
                  exact (hbehind b (hsub hb)).le
              · refine List.rel_append ?_ hbegins
                rw [List.forall₂_map_left_iff, List.forall₂_same]
                exact definedAt_of_openedAt hfirst hpart

end Definition

namespace Dialect

open Definition

theorem name_of_namespaceOf {hd : Header} {vars : List Var} {ns : Namespace}
    (h : namespaceOf hd vars = .ok ns) : ns.name = some hd.name := by
  obtain ⟨_, _, _, _, _, -, -, -, -, rfl⟩ := exists_of_namespaceOf h
  rfl

/-- The lines of the variables are those where their definitions begin in the text. -/
structure LinesFollow (d : Dialect) (file : SourceFile) (t : Text) (ns : Namespace) : Prop where
  read : d.namespaceOfText file (.ok t) = .ok (some ns)
  places : ∃ name places, ns.name = some name ∧
    List.Forall₂ (DefinedAt d name file.relativeName t) places ns.publics ∧
    ns.publics.map (fun v => v.facts.line) = places.map (fun i => Value.int (t.lineAt i)) ∧
    (places.map t.lineAt).Pairwise (· ≤ ·)

theorem linesFollow_of_namespaceOfText {d : Dialect} {file : SourceFile} {t : Text}
    {ns : Namespace} (h : d.namespaceOfText file (.ok t) = .ok (some ns)) :
    LinesFollow d file t ns := by
  refine ⟨h, ?_⟩
  unfold namespaceOfText at h
  simp only at h
  split at h
  case h_1 => cases h
  case h_2 forms hforms =>
    obtain ⟨before, first, hd, rest, vars, rfl, -, -, hvars, hns⟩ := exists_header_of_ofForms h
    obtain ⟨parts, hparts, rfl⟩ := exists_parts_of_publicsOf hvars
    have hsub : (Form.topLevel rest).Sublist (Form.collectionsIn (before ++ first :: rest)) := by
      rw [Form.collectionsIn_append, Form.collectionsIn]
      exact (Form.topLevel_sublist rest).trans
        ((List.sublist_append_right _ _).trans (List.sublist_append_right _ _))
    obtain ⟨places, increasing, hplaces⟩ := Form.exists_places_of_readAll hforms hsub
    obtain ⟨begins, -, hordered, hbegins⟩ := exists_places_of_parts hparts increasing hplaces
    rw [publics_of_namespaceOf hns]
    refine ⟨hd.name, begins, name_of_namespaceOf hns, hbegins, ?_, ?_⟩
    · rw [← List.forall₂_eq_eq_eq, List.forall₂_map_left_iff, List.forall₂_map_right_iff]
      exact hbegins.flip.imp fun _ _ hv => hv.line
    · exact List.pairwise_map.2 (hordered.imp fun hle => t.lineAt_mono hle)

/-- Lines follow the source: those of all collections that are read from a text, and those of all
variables in the namespaces that a dialect reads. -/
theorem lines_follow_source :
    (∀ features t fs, Form.readAll features t = .ok fs → Form.LinesFollow features t fs) ∧
      ∀ (d : Dialect) r roots w nss w', d.read r roots w = (.ok nss, w') → ∀ ns ∈ nss,
        ∃ origin ∈ d.origins w [] roots, ∃ seen t, w.Alike seen ∧
          seen.tree.readText seen.cwd origin.file.path = .ok t ∧
          LinesFollow d origin.file t ns := by
  refine ⟨fun features t fs h => Form.linesFollow_of_readAll h, ?_⟩
  intro d r roots w nss w' h ns hns
  obtain ⟨-, readings, hyields, rfl⟩ := yields_of_read (.refl w) h
  obtain ⟨⟨origin, _⟩, hmem, rfl⟩ := List.mem_map.1 hns
  obtain ⟨horigin, seen, halike, hread⟩ := hyields.exists_of_mem hmem
  unfold readAt at hread
  cases htext : seen.tree.readText seen.cwd origin.file.path with
  | error e =>
      rw [htext] at hread
      cases hread
  | ok t =>
      rw [htext] at hread
      exact ⟨origin, horigin, seen, t, halike, htext, linesFollow_of_namespaceOfText hread⟩

/-- A list in metadata, a vector behind a quotation mark, and a branch. -/
def scatteredText : Text := "(ns a)\n^\x7b:k\n(b)\x7d c\n'\n[d]\n#?(:clj (defn f []))\n#(defrecord R\n[x])"

def scatteredFiles : Workspace :=
  { cwd := ⟨true, []⟩, tree := ⟨[(["a.clj"], .file (bytesOf scatteredText))]⟩ }

/-- The vector behind the mark is on the next line, and both factories have the line of their
record. -/
theorem lines_follow_scatteredText :
    (∃ fs, Form.readAll clojure.features scatteredText = .ok fs ∧
      Form.linesIn fs = [1, 4, 5, 6, 6, 7, 8] ∧
      Form.LinesFollow clojure.features scatteredText fs) ∧
    ∃ nss w', clojure.read .stop [Path.ofText "a.clj"] scatteredFiles = (.ok nss, w') ∧
      nss.map (fun ns => ns.publics.map Var.name) = [[Text.ofString "f", "->R", "map->R"]] ∧
      ∀ ns ∈ nss, ∃ origin ∈ clojure.origins scatteredFiles [] [Path.ofText "a.clj"], ∃ seen t,
        scatteredFiles.Alike seen ∧ seen.tree.readText seen.cwd origin.file.path = .ok t ∧
        LinesFollow clojure origin.file t ns := by
  have hlines : (Form.readAll clojure.features scatteredText).map Form.linesIn =
      .ok [1, 4, 5, 6, 6, 7, 8] := by decide +kernel
  have hnames : (clojure.read .stop [Path.ofText "a.clj"] scatteredFiles).1.map
      (List.map fun ns => ns.publics.map Var.name) =
        .ok [[Text.ofString "f", "->R", "map->R"]] := by decide +kernel
  constructor
  · obtain ⟨fs, hread, hlines⟩ := exists_of_map_eq_ok hlines
    exact ⟨fs, hread, hlines, lines_follow_source.1 _ _ _ hread⟩
  · obtain ⟨nss, hnss, hnames⟩ := exists_of_map_eq_ok hnames
    have hread : clojure.read .stop [Path.ofText "a.clj"] scatteredFiles = (.ok nss, _) :=
      Prod.ext hnss rfl
    exact ⟨nss, _, hread, hnames, lines_follow_source.2 _ _ _ _ _ _ hread⟩

end Dialect

end Docsmith
