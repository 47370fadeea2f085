import Docsmith.Proofs.Confinement
import Mathlib.Data.List.Nodup

/-!
# Which page a file holds

Pages are written one after the other into one directory, and a page replaces what its file
held.  So after a site has been written a file holds the last page that went there, and each
page has its file for itself just if no two pages have names that lead to one file.
-/

namespace Docsmith

/-! ## Pages and their files -/

inductive Subject where
  | index
  | ofNamespace (ns : Namespace)
  | ofDocument (d : Document)

/-- The subjects of the pages, in the order in which they are written. -/
def Site.subjects (s : Site) : List Subject :=
  .index :: (s.visible.map .ofNamespace ++ s.documents.map .ofDocument)

def linkWith (o : Options) (commit : Text) (f : VarFacts) : Option Text :=
  match o.srcDirUri with
  | none => none
  | some uri =>
      if uri.isEmpty || !f.path.truthy then none
      else
        let base := if Text.includes commitPlaceholder uri then
          Text.replaceAll commitPlaceholder commit uri else uri
        let anchor : Text := if f.line.isNull then [] else
          "#" ++ o.srcLinenumAnchorPrefix.getD [] ++ f.line.text
        some (base ++ f.path.text ++ anchor)

namespace Subject

def stem : Subject → Text
  | .index => "index"
  | .ofNamespace ns => ns.label
  | .ofDocument d => Text.replaceAll "/" "-" d.name

def path (o : Options) (p : Subject) : Path := o.outputDir.join (Path.ofText (p.stem ++ ".html"))

def place (o : Options) (cwd : Path) (p : Subject) : List Text :=
  (Path.resolve cwd (p.path o)).names

def page (s : Site) (commit : Text) : Subject → Markup
  | .index => Page.index s.frame
  | .ofNamespace ns =>
      Page.ofNamespace s.frame ns
        (ns.visible.map fun v => ⟨v, linkWith s.options commit v.facts⟩)
  | .ofDocument d => Page.ofDocument s.frame d

def Shown (s : Site) (cwd : Path) (commit : Text) (t : FileTree) (p : Subject) : Prop :=
  ∃ bytes, Utf8.encode (p.page s commit).text = .ok bytes ∧
    t.entry? (p.place s.options cwd) = some (.file bytes)

end Subject

/-! ## The commit in links -/

namespace Workspace

def commitText (w : Workspace) : Text :=
  match w.commit with
  | some (.known v) => ((Docsmith.commitText v).toOption).getD []
  | _ => []

def Remembers (w w' : Workspace) : Prop :=
  ∀ v, w.commit = some (.known v) → w'.commit = some (.known v)

theorem Remembers.refl (w : Workspace) : w.Remembers w := fun _ => id

theorem Remembers.trans {w w' w'' : Workspace} (h : w.Remembers w') (h' : w'.Remembers w'') :
    w.Remembers w'' := fun v hv => h' v (h v hv)

theorem commit_record (w : Workspace) (r : LogRecord) : (w.record r).commit = w.commit := by
  obtain ⟨_, _, _, hrecord⟩ := exists_record_eq w r
  rw [hrecord]

/-- Nothing has happened but that a commit may have been looked up. -/
structure Looks (w w' : Workspace) : Prop where
  cwd : w'.cwd = w.cwd
  logging : w'.logging = w.logging
  tree : w'.tree = w.tree
  commit : w.Remembers w'

theorem Looks.refl (w : Workspace) : w.Looks w := ⟨rfl, rfl, rfl, .refl w⟩

theorem Looks.trans {w w' w'' : Workspace} (h : w.Looks w') (h' : w'.Looks w'') : w.Looks w'' :=
  ⟨h'.cwd.trans h.cwd, h'.logging.trans h.logging, h'.tree.trans h.tree, h.commit.trans h'.commit⟩

end Workspace

open Docsmith.Action

theorem Action.known_of_lookUpCommit {given : Commit} {w w' : Workspace} {v : Value}
    (h : lookUpCommit given w = (.ok v, w')) : w'.commit = some (.known v) := by
  unfold lookUpCommit at h
  cases hcommit : w.commit.getD given with
  | known u =>
      rw [hcommit] at h
      cases h
      rfl
  | pending directory =>
      cases hrun : w.runner.run w.tree w.cwd directory with
      | mk result runner =>
          cases result with
          | error e =>
              simp only [hcommit, Commit.get, hrun] at h
              cases h
          | ok text =>
              simp only [hcommit, Commit.get, hrun] at h
              cases h
              rfl

theorem Action.looks_lookUpCommit (given : Commit) (w : Workspace) :
    w.Looks (lookUpCommit given w).2 := by
  refine ⟨rfl, rfl, rfl, fun v hv => ?_⟩
  unfold lookUpCommit
  rw [hv]
  rfl

namespace Action

variable {α β : Type}

theorem looks_bind {x : Action α} {next : α → Action β} (hx : ∀ w : Workspace, w.Looks (x w).2)
    (hnext : ∀ a, ∀ w : Workspace, w.Looks (next a w).2) (w : Workspace) :
    w.Looks ((x >>= next) w).2 :=
  related_bind (r := Workspace.Looks) (fun h h' => h.trans h') (hx w) fun a mid _ => hnext a mid

/-- The action at most looks up the commit.  A result is what the function gives for the commit
as it is known at any later time. -/
structure Yields (x : Action α) (g : Text → α) : Prop where
  looks (w : Workspace) : w.Looks (x w).2
  result {w w' : Workspace} {a : α} (h : x w = (.ok a, w')) {last : Workspace}
    (hlast : w'.Remembers last) : a = g last.commitText

theorem Yields.looks_of_ok {x : Action α} {g : Text → α} (hx : Yields x g) {w w' : Workspace}
    {a : α} (h : x w = (.ok a, w')) : w.Looks w' := by
  have hlooks := hx.looks w
  rwa [h] at hlooks

theorem yields_pure (a : α) : Yields (pure a) fun _ => a where
  looks w := .refl w
  result h _ _ := by
    cases h
    rfl

theorem yields_ofExcept {e : Except Failure α} {a : α} (h : ∀ b, e = .ok b → b = a) :
    Yields (ofExcept e) fun _ => a where
  looks w := .refl w
  result hrun _ _ := h _ (eq_of_ofExcept hrun).1

theorem Yields.bind {x : Action α} {next : α → Action β} {g : Text → α} {h : α → Text → β}
    (hx : Yields x g) (hnext : ∀ a, Yields (next a) (h a)) :
    Yields (x >>= next) fun commit => h (g commit) commit where
  looks := looks_bind hx.looks fun a => (hnext a).looks
  result hrun last hlast := by
    obtain ⟨a, mid, ha, hb⟩ := exists_of_bind hrun
    have hremembers := ((hnext a).looks_of_ok hb).commit
    rw [(hnext a).result hb hlast, hx.result ha (hremembers.trans hlast)]

/-- The action has nothing to do with the commit. -/
structure Unasking (x : Action α) : Prop where
  runner (w : Workspace) : (x w).2.runner = w.runner
  commit (w : Workspace) : (x w).2.commit = w.commit

theorem Unasking.bind {x : Action α} {next : α → Action β} (hx : Unasking x)
    (hnext : ∀ a, Unasking (next a)) : Unasking (x >>= next) where
  runner w := related_bind (r := fun w w' => w'.runner = w.runner) (fun h h' => h'.trans h)
    (hx.runner w) fun a mid _ => (hnext a).runner mid
  commit w := related_bind (r := fun w w' => w'.commit = w.commit) (fun h h' => h'.trans h)
    (hx.commit w) fun a mid _ => (hnext a).commit mid

theorem unasking_of_eq {x : Action α} (h : ∀ w, (x w).2 = w) : Unasking x :=
  ⟨fun w => by rw [h w], fun w => by rw [h w]⟩

theorem unasking_pure (a : α) : Unasking (pure a) := unasking_of_eq fun _ => rfl

theorem unasking_ofExcept (e : Except Failure α) : Unasking (ofExcept e) :=
  unasking_of_eq fun _ => rfl

theorem unasking_logAs (part : Text) (level : Level) (message : Text) :
    Unasking (logAs part level message) := by
  have hrecord (w : Workspace) (r : LogRecord) : (w.record r).runner = w.runner := by
    obtain ⟨_, _, _, hrecord⟩ := w.exists_record_eq r
    rw [hrecord]
  exact ⟨fun w => hrecord w _, fun w => w.commit_record _⟩

theorem unasking_change (f : Path → FileTree → Except FileFault FileTree) :
    Unasking (change f) := by
  constructor <;> intro w <;> unfold change <;> split <;> rfl

theorem unasking_writeText (p : Path) (t : Text) : Unasking (writeText p t) := by
  refine (unasking_change _).bind fun _ => ?_
  cases Utf8.encode t with
  | ok bytes => exact unasking_change _
  | error e => exact unasking_of_eq fun _ => rfl

end Action

theorem yields_linkBase (o : Options) (uri : Text) :
    Yields (linkBase o uri) fun commit => if Text.includes commitPlaceholder uri then
      Text.replaceAll commitPlaceholder commit uri else uri := by
  unfold linkBase
  split
  · refine ⟨looks_bind (looks_lookUpCommit _) fun v => looks_bind Workspace.Looks.refl fun _ =>
      Workspace.Looks.refl, fun {w w' base} h last hlast => ?_⟩
    obtain ⟨v, mid, hlookup, h⟩ := exists_of_bind h
    obtain ⟨commit, mid', hgiven, h⟩ := exists_of_bind h
    obtain ⟨hcommit, rfl⟩ := eq_of_ofExcept hgiven
    cases h
    have htext : last.commitText = commit := by
      rw [Workspace.commitText, hlast v (known_of_lookUpCommit hlookup)]
      dsimp only
      rw [hcommit]
      rfl
    rw [htext]
  · exact yields_pure uri

theorem eq_text_of_toText {v : Value} {t : Text} (h : Options.toText v = .ok t) : t = v.text := by
  unfold Options.toText at h
  split at h
  · exact (Except.ok.inj h).symm
  · cases h

theorem eq_of_lineAnchor {o : Options} {line : Value} {anchor : Text}
    (h : lineAnchor o line = .ok anchor) :
    anchor = if line.isNull then [] else
      Text.ofString "#" ++ o.srcLinenumAnchorPrefix.getD [] ++ line.text := by
  unfold lineAnchor at h
  split at h
  case isTrue hnull =>
    rw [if_pos hnull]
    exact (Except.ok.inj h).symm
  case isFalse hnull =>
    obtain ⟨t, ht, rfl⟩ := exists_of_map_eq_ok h
    rw [if_neg hnull, eq_text_of_toText ht]

theorem yields_sourceUri (o : Options) (f : VarFacts) :
    Yields (sourceUri o f) fun commit => linkWith o commit f := by
  unfold sourceUri linkWith
  cases o.srcDirUri with
  | none => exact yields_pure none
  | some uri =>
      dsimp only
      by_cases unlinked : (uri.isEmpty || !f.path.truthy) = true
      · simp only [if_pos unlinked]
        exact yields_pure none
      · simp only [if_neg unlinked]
        have hpath := yields_ofExcept fun path (h : Options.toText f.path = .ok path) =>
          eq_text_of_toText h
        have hanchor := yields_ofExcept fun anchor (h : lineAnchor o f.line = .ok anchor) =>
          eq_of_lineAnchor h
        exact (yields_linkBase o uri).bind fun _ => hpath.bind fun _ => hanchor.bind fun _ =>
          yields_pure _

theorem Markup.text_eq_of_render {page : Markup} {t : Text} (h : page.render = .ok t) :
    page.text = t := by
  unfold render at h
  split at h
  · exact Except.ok.inj h
  · cases h

namespace Writer

theorem yields_pageEntries (o : Options) (vs : List Var) :
    Yields (pageEntries o vs) fun commit =>
      vs.map fun v => ⟨v, linkWith o commit v.facts⟩ := by
  induction vs with
  | nil => exact yields_pure _
  | cons v vs ih =>
      exact (yields_sourceUri o v.facts).bind fun _ => ih.bind fun _ => yields_pure _

/-! ## One page -/

def writeSubject (s : Site) : Subject → Action Unit
  | .index => writePage (s.options.outputDir.child "index.html") (Page.index s.frame)
  | .ofNamespace ns => writeNamespace s.options s.frame ns
  | .ofDocument d => writeDocument s.options s.frame d

def draft (s : Site) : Subject → Action Markup
  | .index => return Page.index s.frame
  | .ofNamespace ns => do
      return Page.ofNamespace s.frame ns (← pageEntries s.options ns.visible)
  | .ofDocument d => return Page.ofDocument s.frame d

theorem writeSubject_eq (s : Site) (p : Subject) :
    writeSubject s p = draft s p >>= writePage (p.path s.options) := by
  cases p with
  | index => rfl
  | ofNamespace ns =>
      simp only [draft, bind_assoc, pure_bind]
      rfl
  | ofDocument d => rfl

theorem yields_draft (s : Site) (p : Subject) :
    Yields (draft s p) fun commit => p.page s commit := by
  cases p with
  | index => exact yields_pure _
  | ofNamespace ns => exact (yields_pageEntries _ _).bind fun _ => yields_pure _
  | ofDocument d => exact yields_pure _

structure Puts (s : Site) (p : Subject) (w w' : Workspace) : Prop where
  cwd : w'.cwd = w.cwd
  logging : w'.logging = w.logging
  commit : w.Remembers w'
  others : ∀ place, place ≠ p.place s.options w.cwd → w'.tree.entry? place = w.tree.entry? place
  shown : ∀ last, w'.Remembers last → p.Shown s w.cwd last.commitText w'.tree

theorem of_change {f : Path → FileTree → Except FileFault FileTree} {w w' : Workspace} {a : Unit}
    (h : change f w = (.ok a, w')) :
    ∃ tree, f w.cwd w.tree = .ok tree ∧ w' = { w with tree := tree } := by
  unfold change at h
  split at h
  case h_1 tree htree =>
    cases h
    exact ⟨tree, htree, rfl⟩
  case h_2 => cases h

theorem of_writeText {target : Path} {text : Text} {w w' : Workspace} {a : Unit}
    (h : writeText target text w = (.ok a, w')) :
    ∃ bytes tree, Utf8.encode text = .ok bytes ∧ w' = { w with tree := tree } ∧
      tree.entry? (Path.resolve w.cwd target).names = some (.file bytes) ∧
      ∀ place, place ≠ (Path.resolve w.cwd target).names →
        tree.entry? place = w.tree.entry? place := by
  obtain ⟨_, mid, hopen, h⟩ := exists_of_bind h
  obtain ⟨opened, hopened, rfl⟩ := of_change hopen
  cases hbytes : Utf8.encode text with
  | error e =>
      rw [hbytes] at h
      cases h
  | ok bytes =>
      rw [hbytes] at h
      obtain ⟨tree, htree, rfl⟩ := of_change h
      obtain ⟨hnot, rfl⟩ := FileTree.eq_put_of_write hopened
      obtain ⟨-, rfl⟩ := FileTree.eq_put_of_write htree
      refine ⟨bytes, _, rfl, rfl, ?_, fun place hplace => ?_⟩
      · exact FileTree.entry?_put_self (FileTree.ne_nil_of_entry?_ne hnot) _ _
      · rw [FileTree.entry?_put_of_ne hplace, FileTree.entry?_put_of_ne hplace]

theorem of_writePage {target : Path} {page : Markup} {w w' : Workspace} {a : Unit}
    (h : writePage target page w = (.ok a, w')) :
    ∃ bytes tree, Utf8.encode page.text = .ok bytes ∧ w' = { w with tree := tree } ∧
      tree.entry? (Path.resolve w.cwd target).names = some (.file bytes) ∧
      ∀ place, place ≠ (Path.resolve w.cwd target).names →
        tree.entry? place = w.tree.entry? place := by
  obtain ⟨text, mid, hgiven, h⟩ := exists_of_bind h
  obtain ⟨hrender, rfl⟩ := eq_of_ofExcept hgiven
  obtain rfl := Markup.text_eq_of_render hrender
  exact of_writeText h

theorem puts_of_writePage {s : Site} {p : Subject} {page : Markup} {w mid w' : Workspace}
    {a : Unit} (hlooks : w.Looks mid)
    (hpage : ∀ last, mid.Remembers last → page = p.page s last.commitText)
    (h : writePage (p.path s.options) page mid = (.ok a, w')) : Puts s p w w' := by
  obtain ⟨bytes, tree, hbytes, rfl, hplace, hothers⟩ := of_writePage h
  rw [hlooks.cwd] at hplace hothers
  refine ⟨hlooks.cwd, hlooks.logging, hlooks.commit, fun place hne => ?_, fun last hlast => ?_⟩
  · rw [← hlooks.tree]
    exact hothers place hne
  · rw [hpage last hlast] at hbytes
    exact ⟨bytes, hbytes, hplace⟩

theorem puts_of_writeSubject {s : Site} {p : Subject} {w w' : Workspace} {a : Unit}
    (h : writeSubject s p w = (.ok a, w')) : Puts s p w w' := by
  rw [writeSubject_eq] at h
  obtain ⟨page, mid, hdraft, h⟩ := exists_of_bind h
  have hyields := yields_draft s p
  exact puts_of_writePage (hyields.looks_of_ok hdraft) (fun _ => hyields.result hdraft) h

/-! ## All pages -/

/-- The pages have been written one after the other, and no other file has changed.  What a
file holds is the last of its pages. -/
structure PutsAll (s : Site) (ps : List Subject) (w w' : Workspace) : Prop where
  cwd : w'.cwd = w.cwd
  logging : w'.logging = w.logging
  commit : w.Remembers w'
  others : ∀ place, (∀ p ∈ ps, place ≠ p.place s.options w.cwd) →
    w'.tree.entry? place = w.tree.entry? place
  shown : ∀ before p after, ps = before ++ p :: after →
    (∀ q ∈ after, q.place s.options w.cwd ≠ p.place s.options w.cwd) →
    ∀ last, w'.Remembers last → p.Shown s w.cwd last.commitText w'.tree

theorem PutsAll.nil (s : Site) (w : Workspace) : PutsAll s [] w w where
  cwd := rfl
  logging := rfl
  commit := .refl w
  others _ _ := rfl
  shown before p after h := by simp at h

theorem PutsAll.cons {s : Site} {p : Subject} {ps : List Subject} {w mid w' : Workspace}
    (hfirst : Puts s p w mid) (hrest : PutsAll s ps mid w') : PutsAll s (p :: ps) w w' where
  cwd := hrest.cwd.trans hfirst.cwd
  logging := hrest.logging.trans hfirst.logging
  commit := hfirst.commit.trans hrest.commit
  others place h := by
    obtain ⟨hp, hps⟩ := List.forall_mem_cons.1 h
    rw [← hfirst.cwd] at hps
    exact (hrest.others place hps).trans (hfirst.others place hp)
  shown before q after h hlater last hlast := by
    cases before with
    | nil =>
        obtain ⟨rfl, rfl⟩ := List.cons.inj h
        obtain ⟨bytes, hbytes, hentry⟩ := hfirst.shown last (hrest.commit.trans hlast)
        refine ⟨bytes, hbytes, (hrest.others _ fun r hr => ?_).trans hentry⟩
        rw [hfirst.cwd]
        exact (hlater r hr).symm
    | cons r before =>
        have hshown := hrest.shown before q after (List.cons.inj h).2
        rw [hfirst.cwd] at hshown
        exact hshown hlater last hlast

theorem putsAll_of_forM {s : Site} {ps : List Subject} {w w' : Workspace} {a : Unit}
    (h : ps.forM (writeSubject s) w = (.ok a, w')) : PutsAll s ps w w' := by
  induction ps generalizing w with
  | nil =>
      cases h
      exact .nil s _
  | cons p ps ih =>
      obtain ⟨_, mid, hfirst, h⟩ := exists_of_bind h
      exact .cons (puts_of_writeSubject hfirst) (ih h)

theorem writeHtml_eq (s : Site) :
    writeHtml s = ensureDirectory s.options.outputDir >>= fun _ =>
      s.subjects.forM (writeSubject s) >>= fun _ =>
        logAs "writers.html" .info
          ("Wrote " ++ Text.ofNat s.visible.length ++ " namespace pages and "
            ++ Text.ofNat s.documents.length ++ " documents to " ++ s.options.outputDir.text) := by
  simp [writeHtml, Site.subjects, writeSubject, Site.frame]

theorem PutsAll.shown_of_record {s : Site} {ps before after : List Subject} {p : Subject}
    {w done : Workspace} (h : PutsAll s ps w done) (hsplit : ps = before ++ p :: after)
    (hlater : ∀ q ∈ after, q.place s.options w.cwd ≠ p.place s.options w.cwd)
    (unlogged : ¬w.LogsTo (p.place s.options w.cwd)) (r : LogRecord) :
    p.Shown s w.cwd (done.record r).commitText (done.record r).tree := by
  have hremembers : done.Remembers (done.record r) := fun v hv =>
    (Workspace.commit_record done r).trans hv
  obtain ⟨bytes, hbytes, hentry⟩ := h.shown before p after hsplit hlater _ hremembers
  refine ⟨bytes, hbytes, (Workspace.entry?_record ?_ r).trans hentry⟩
  rintro ⟨l, hl, hdestination⟩
  exact unlogged ⟨l, h.logging ▸ hl, hdestination⟩

theorem shown_of_writeHtml {s : Site} {w w' : Workspace} {a : Unit}
    (h : writeHtml s w = (.ok a, w')) {before after : List Subject} {p : Subject}
    (hsplit : s.subjects = before ++ p :: after)
    (hlater : ∀ q ∈ after, q.place s.options w.cwd ≠ p.place s.options w.cwd)
    (unlogged : ¬w.LogsTo (p.place s.options w.cwd)) :
    p.Shown s w.cwd w'.commitText w'.tree := by
  rw [writeHtml_eq] at h
  obtain ⟨_, begun, hensure, h⟩ := exists_of_bind h
  obtain ⟨tree, -, rfl⟩ := of_change hensure
  obtain ⟨_, done, hpages, h⟩ := exists_of_bind h
  obtain rfl := congrArg Prod.snd h
  exact (putsAll_of_forM hpages).shown_of_record hsplit hlater unlogged _

end Writer

/-! ## Names that lead to different files -/

namespace Subject

def isSlashed (p : Subject) : Bool := p.stem.contains (CodePoint.ofChar '/')

theorem place_of_not_isSlashed {p : Subject} (h : p.isSlashed = false) (o : Options)
    (cwd : Path) :
    p.place o cwd = (Path.resolve cwd o.outputDir).names ++ [p.stem ++ ".html"] := by
  refine Path.names_resolve_page (fun hslash => ?_) cwd o.outputDir
  rw [isSlashed, List.contains_eq_mem, decide_eq_false_iff_not] at h
  exact h hslash

end Subject

/-- The names of the pages lead to different files: those without a slash are different, and
each of the others leads to a place of its own. -/
structure Site.NamesApart (s : Site) (cwd : Path) : Prop where
  plain : ((s.subjects.filter fun p => !p.isSlashed).map Subject.stem).Nodup
  slashed : ((s.subjects.filter Subject.isSlashed).map (Subject.place s.options cwd)).Nodup
  across : ∀ p ∈ s.subjects, p.isSlashed = true → ∀ q ∈ s.subjects, q.isSlashed = false →
    p.place s.options cwd ≠ q.place s.options cwd

theorem Site.nodup_places_iff (s : Site) (cwd : Path) :
    (s.subjects.map (Subject.place s.options cwd)).Nodup ↔ s.NamesApart cwd := by
  have hperm := (List.filter_append_perm Subject.isSlashed s.subjects).map
    (Subject.place s.options cwd)
  have hplain : (s.subjects.filter fun p => !p.isSlashed).map (Subject.place s.options cwd) =
      ((s.subjects.filter fun p => !p.isSlashed).map Subject.stem).map fun stem =>
        (Path.resolve cwd s.options.outputDir).names ++ [stem ++ Text.ofString ".html"] := by
    rw [List.map_map]
    refine List.map_congr_left fun p hp => ?_
    exact Subject.place_of_not_isSlashed (by simpa using (List.mem_filter.1 hp).2) _ _
  have hinjective : Function.Injective fun stem : Text =>
      (Path.resolve cwd s.options.outputDir).names ++ [stem ++ Text.ofString ".html"] := by
    intro stem stem' h
    simpa using h
  rw [← hperm.nodup_iff, List.map_append, List.nodup_append, hplain,
    List.nodup_map_iff hinjective, ← hplain]
  constructor
  · rintro ⟨hslashed, hplain, hacross⟩
    refine ⟨hplain, hslashed, fun p hp hpslash q hq hqslash => ?_⟩
    exact hacross _ (List.mem_map_of_mem (List.mem_filter.2 ⟨hp, hpslash⟩)) _
      (List.mem_map_of_mem (List.mem_filter.2 ⟨hq, by simpa using hqslash⟩))
  · rintro ⟨hplain, hslashed, hacross⟩
    refine ⟨hslashed, hplain, ?_⟩
    simp only [List.forall_mem_map, List.mem_filter]
    rintro p ⟨hp, hpslash⟩ q ⟨hq, hqslash⟩
    exact hacross p hp hpslash q hq (by simpa using hqslash)

namespace Writer

/-- Once all pages of a site are written, each file holds the page that was written to it
last.  So the pages have files for themselves, which hold them, just if the names of the pages
lead to different files. -/
theorem pages_apart_iff_names {s : Site} {w w' : Workspace}
    (h : Writer.html.write s w = (.ok (), w'))
    (unlogged : ∀ p ∈ s.subjects, ¬w.LogsTo (p.place s.options w.cwd)) :
    (∀ before p after, s.subjects = before ++ p :: after →
      (∀ q ∈ after, q.place s.options w.cwd ≠ p.place s.options w.cwd) →
        p.Shown s w.cwd w'.commitText w'.tree) ∧
    ((s.subjects.map (Subject.place s.options w.cwd)).Nodup ∧
      (∀ p ∈ s.subjects, p.Shown s w.cwd w'.commitText w'.tree) ↔ s.NamesApart w.cwd) := by
  have hlast : ∀ before p after, s.subjects = before ++ p :: after →
      (∀ q ∈ after, q.place s.options w.cwd ≠ p.place s.options w.cwd) →
        p.Shown s w.cwd w'.commitText w'.tree := by
    intro before p after hsplit hlater
    exact shown_of_writeHtml h hsplit hlater (unlogged p (by simp [hsplit]))
  refine ⟨hlast, ?_⟩
  rw [← s.nodup_places_iff]
  refine ⟨And.left, fun hnodup => ⟨hnodup, fun p hp => ?_⟩⟩
  obtain ⟨before, after, hsplit⟩ := List.append_of_mem hp
  refine hlast before p after hsplit fun q hq hplace => ?_
  rw [hsplit, List.map_append, List.map_cons] at hnodup
  have hfirst := (List.nodup_cons.1 (List.nodup_append.1 hnodup).2.1).1
  exact hfirst (hplace ▸ List.mem_map_of_mem hq)

def smallSite (document : Text) : Site :=
  { options := { root := ⟨true, []⟩, commit := .known .null },
    namespaces := [],
    documents := [{ name := document, content := "b", path := [] }] }

def emptyWorkspace : Workspace := { cwd := ⟨true, []⟩, tree := ⟨[]⟩ }

theorem write_smallSite_apart :
    ∃ w', Writer.html.write (smallSite "b/c") emptyWorkspace = (.ok (), w') ∧
      ((smallSite "b/c").subjects.map
        (Subject.place (smallSite "b/c").options emptyWorkspace.cwd)).Nodup ∧
      ∀ p ∈ (smallSite "b/c").subjects,
        p.Shown (smallSite "b/c") emptyWorkspace.cwd w'.commitText w'.tree := by
  have hdone : (Writer.html.write (smallSite "b/c") emptyWorkspace).1 = .ok () := by
    decide +kernel
  have hwrite : Writer.html.write (smallSite "b/c") emptyWorkspace =
      (.ok (), (Writer.html.write (smallSite "b/c") emptyWorkspace).2) := Prod.ext hdone rfl
  have hnames : (smallSite "b/c").NamesApart emptyWorkspace.cwd := by
    constructor <;> decide +kernel
  have hunlogged : ∀ place, ¬emptyWorkspace.LogsTo place := by
    rintro place ⟨l, hl, -⟩
    cases hl
  exact ⟨_, hwrite, (pages_apart_iff_names hwrite fun _ _ => hunlogged _).2.2 hnames⟩

/-- A document named `index` takes the file of the index. -/
theorem index_page_overwritten :
    ((smallSite "index").visible.map Namespace.name).Nodup ∧
      ((smallSite "index").documents.map Document.name).Nodup ∧
      ∃ w', Writer.html.write (smallSite "index") emptyWorkspace = (.ok (), w') ∧
        ¬((smallSite "index").subjects.map
          (Subject.place (smallSite "index").options emptyWorkspace.cwd)).Nodup ∧
        ¬Subject.index.Shown (smallSite "index") emptyWorkspace.cwd w'.commitText w'.tree := by
  obtain ⟨hdone, hentry⟩ :
      (Writer.html.write (smallSite "index") emptyWorkspace).1 = .ok () ∧
      FileTree.entry? (Writer.html.write (smallSite "index") emptyWorkspace).2.tree
        (Subject.index.place (smallSite "index").options emptyWorkspace.cwd) ≠
        (Utf8.encode (Page.index (smallSite "index").frame).text).toOption.map .file := by
    decide +kernel
  refine ⟨by decide +kernel, by decide, _, Prod.ext hdone rfl, by decide +kernel, ?_⟩
  rintro ⟨bytes, hbytes, hshown⟩
  refine hentry (hshown.trans ?_)
  have hpage : Utf8.encode (Page.index (smallSite "index").frame).text = .ok bytes := hbytes
  rw [hpage]
  rfl

end Writer

end Docsmith
