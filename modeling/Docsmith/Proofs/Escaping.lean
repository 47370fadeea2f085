import Docsmith.Proofs.Pages
import Mathlib.Data.List.Forall2

/-!
# Markup comes from templates alone

What a page says by itself is fixed, and the values in its fields are escaped.  So the characters
that make up tags and attributes are those of the templates, and which of them stand in a page
depends on the conditions and the loops of the templates but on no text of a field.
-/

namespace Docsmith

namespace Markup

/-! ## Fields -/

def isMark (c : CodePoint) : Bool := c = '<' || c = '>' || c = '"' || c = '\''

def marks (t : Text) : Text := t.filter isMark

theorem marks_append (t u : Text) : marks (t ++ u) = marks t ++ marks u := List.filter_append ..

theorem not_isMark_of_mem_escapeChar {c d : CodePoint} (h : d ∈ escapeChar c) :
    isMark d = false := by
  have hentities : ∀ e ∈ entities, ∀ d ∈ e.2, isMark d = false := by decide
  have hescaped (hc : isMark c = true) : entities.lookup c ≠ none := by
    simp only [isMark, Bool.or_eq_true, decide_eq_true_eq] at hc
    rcases hc with ((rfl | rfl) | rfl) | rfl <;> decide
  unfold escapeChar at h
  cases hc : entities.lookup c with
  | some t =>
      rw [hc] at h
      obtain ⟨before, after, hsplit, -⟩ := List.lookup_eq_some_iff.1 hc
      exact hentities (c, t) (by simp [hsplit]) d h
  | none =>
      rw [hc] at h
      obtain rfl := List.mem_singleton.1 h
      exact Bool.eq_false_iff.2 fun hmark => hescaped hmark hc

theorem marks_escape (t : Text) : marks (escape t) = [] := by
  refine List.filter_eq_nil_iff.2 fun d hd => ?_
  obtain ⟨c, -, hd⟩ := List.mem_flatMap.1 hd
  simp [not_isMark_of_mem_escapeChar hd]

end Markup

namespace Page

open Markup

/-! ## Templates -/

def templates : List String :=
  ["<a href=\"", "\">", "</a>", "<pre class=\"doc\">", "</pre>", "<p class=\"added\">added in ",
   "</p>", "<p class=\"deprecated\">deprecated", " in ", "  <h4>Topics</h4>\n  <ul>\n", "    <li>",
   "</li>\n", "  </ul>\n", "  <h4>Namespaces</h4>\n  <ul>\n",
   "<nav id=\"sidebar\">\n  <h3><a href=\"index.html\">", "</a></h3>\n", "</nav>\n",
   "<!DOCTYPE html>\n<html>\n<head>\n<meta charset=\"utf-8\">\n<title>",
   "</title>\n</head>\n<body>\n", "<main id=\"content\">\n", "</main>\n</body>\n</html>",
   "<div class=\"namespace\">\n  <h3>", "</h3>\n", "</div>\n", " ", "<h1>",
   " <span class=\"version\">", "</span>", "</h1>\n", "<p class=\"description\">",
   "  <div class=\"usage\">\n", "    <code>(", ")</code>\n", "  </div>\n",
   "    <div class=\"member\">\n      <h4>", "</h4>\n", "<code>(", ")</code>", "    </div>\n",
   "  <div class=\"members\">\n", "<div class=\"src-link\">", "</div>",
   "<div class=\"public\" id=\"var-", "\">\n  <h3>", "<span class=\"type\">", " documentation",
   "<div class=\"document\" id=\"doc-", "\">\n  <pre class=\"", "</pre>\n</div>\n"]

inductive Matches : Fragment → Fragment → Prop
  | template {t : String} (mem : t ∈ templates) : Matches (.markup t) (.markup t)
  | field (v v' : Value) : Matches (.field v) (.field v')

def Fits (m m' : Markup) : Prop := List.Forall₂ Matches m m'

theorem Matches.marks_text_eq {f f' : Fragment} (h : Matches f f') :
    marks f.text = marks f'.text := by
  cases h with
  | template => rfl
  | field v v' => exact (marks_escape v.text).trans (marks_escape v'.text).symm

theorem Fits.marks_text_eq {m m' : Markup} (h : Fits m m') : marks m.text = marks m'.text := by
  induction h with
  | nil => rfl
  | @cons f f' m m' hfirst _ ih =>
      calc marks (text (f :: m)) = marks f.text ++ marks (text m) := marks_append _ _
        _ = marks f'.text ++ marks (text m') := by rw [hfirst.marks_text_eq, ih]
        _ = marks (text (f' :: m')) := (marks_append _ _).symm

theorem Fits.template_or_field {m : Markup} (h : Fits m m) {f : Fragment} (hf : f ∈ m) :
    (∃ t ∈ templates, f = .markup t) ∨ ∃ v, f = .field v ∧ marks f.text = [] := by
  cases List.forall₂_same.1 h f hf with
  | template mem => exact .inl ⟨_, mem, rfl⟩
  | field v => exact .inr ⟨v, rfl, marks_escape v.text⟩

section

variable {m m' n n' : Markup}

theorem Fits.append (h : Fits m m') (h' : Fits n n') : Fits (m ++ n) (m' ++ n') :=
  List.rel_append h h'

theorem fits_lit {t : String} (h : t ∈ templates) : Fits (lit t) (lit t) :=
  .cons (.template h) .nil

theorem fits_field (v v' : Value) : Fits (Markup.field v) (Markup.field v') :=
  .cons (.field v v') .nil

theorem fits_word (t t' : Text) : Fits (word t) (word t') := fits_field _ _

theorem Fits.lit (h : Fits m m') {t : String} (ht : t ∈ templates) :
    Fits (m ++ Markup.lit t) (m' ++ Markup.lit t) := h.append (fits_lit ht)

theorem Fits.word (h : Fits m m') (t t' : Text) :
    Fits (m ++ Markup.word t) (m' ++ Markup.word t') := h.append (fits_word t t')

theorem Fits.between {t u : String} (ht : t ∈ templates) (h : Fits m m') (hu : u ∈ templates) :
    Fits (Markup.lit t ++ m ++ Markup.lit u) (Markup.lit t ++ m' ++ Markup.lit u) :=
  ((fits_lit ht).append h).lit hu

theorem fits_given {c c' : Bool} (hc : c = c') (h : c = true → Fits m m') :
    Fits (given c m) (given c' m') := by
  subst hc
  cases c with
  | true => exact h rfl
  | false => exact .nil

theorem fits_flatMap {α : Type} {R : α → α → Prop} {f g : α → Markup} {as bs : List α}
    (h : List.Forall₂ R as bs) (hf : ∀ a b, R a b → Fits (f a) (g b)) :
    Fits (as.flatMap f) (bs.flatMap g) :=
  List.rel_flatMap h (@hf)

end

theorem forall₂_of_length_eq {α : Type} {as bs : List α} (h : as.length = bs.length) :
    List.Forall₂ (fun _ _ => True) as bs := by
  induction as generalizing bs with
  | nil =>
      obtain rfl := List.length_eq_zero_iff.1 h.symm
      exact .nil
  | cons a as ih =>
      cases bs with
      | nil => cases h
      | cons b bs => exact .cons trivial (ih (Nat.succ.inj h))

theorem isEmpty_eq_of_length_eq {α : Type} {as bs : List α} (h : as.length = bs.length) :
    as.isEmpty = bs.isEmpty := by
  cases as <;> cases bs <;> first | rfl | cases h

/-! ## Conditions and loops -/

structure DeprecationsAgree (v v' : Value) : Prop where
  holds : v.truthy = v'.truthy
  bare : v.truthy = true → v.isText "true" = v'.isText "true"

structure MembersAgree (m m' : Var) : Prop where
  arglists : m.facts.arglists.length = m'.facts.arglists.length
  doc : m.facts.doc.truthy = m'.facts.doc.truthy

structure EntriesAgree (e e' : PageEntry) : Prop where
  kind : e.var.facts.kind = "var" ↔ e'.var.facts.kind = "var"
  added : e.var.facts.added.truthy = e'.var.facts.added.truthy
  deprecated : DeprecationsAgree e.var.facts.deprecated e'.var.facts.deprecated
  arglists : List.Forall₂ (fun a a' : Text => a = "[]" ↔ a' = "[]")
    e.var.facts.arglists e'.var.facts.arglists
  doc : e.var.facts.doc.truthy = e'.var.facts.doc.truthy
  members : e.var.members.isEmpty = e'.var.members.isEmpty
  shown : List.Forall₂ MembersAgree e.var.visibleMembers e'.var.visibleMembers
  source : (e.uri.getD []).isEmpty = (e'.uri.getD []).isEmpty

structure NamespacesAgree (ns ns' : Namespace) (es es' : List PageEntry) : Prop where
  added : ns.added.truthy = ns'.added.truthy
  deprecated : DeprecationsAgree ns.deprecated ns'.deprecated
  doc : ns.doc.truthy = ns'.doc.truthy
  entries : List.Forall₂ EntriesAgree es es'

structure FramesAgree (f f' : Frame) : Prop where
  version : f.version.isEmpty = f'.version.isEmpty
  description : f.description.isEmpty = f'.description.isEmpty
  documents : f.documents.length = f'.documents.length
  namespaces : List.Forall₂ (fun ns ns' => ns.doc.truthy = ns'.doc.truthy)
    f.namespaces f'.namespaces

/-! ## Parts of pages -/

theorem fits_link (t l t' l' : Text) : Fits (link t l) (link t' l') :=
  fits_lit (by simp [templates]) |>.word t t' |>.lit (by simp [templates]) |>.word l l'
    |>.lit (by simp [templates])

theorem fits_docText {v v' : Value} (h : v.truthy = v'.truthy) : Fits (docText v) (docText v') :=
  fits_given h fun _ => .between (by simp [templates]) (fits_field v v') (by simp [templates])

theorem fits_addedText {v v' : Value} (h : v.truthy = v'.truthy) :
    Fits (addedText v) (addedText v') :=
  fits_given h fun _ => .between (by simp [templates]) (fits_field v v') (by simp [templates])

theorem fits_deprecatedText {v v' : Value} (h : DeprecationsAgree v v') :
    Fits (deprecatedText v) (deprecatedText v') := by
  refine fits_given h.holds fun htrue => ?_
  refine .between (by simp [templates]) (fits_given ?_ fun _ => ?_) (by simp [templates])
  · rw [h.bare htrue]
  · exact (fits_lit (by simp [templates])).append (fits_field v v')

theorem fits_items {α : Type} {as as' : List α} (h : as.length = as'.length)
    (target label : α → Text) :
    Fits (as.flatMap fun a => lit "    <li>" ++ link (target a) (label a) ++ lit "</li>\n")
      (as'.flatMap fun a => lit "    <li>" ++ link (target a) (label a) ++ lit "</li>\n") :=
  fits_flatMap (forall₂_of_length_eq h) fun _ _ _ =>
    .between (by simp [templates]) (fits_link _ _ _ _) (by simp [templates])

theorem fits_topics {ds ds' : List Document} (h : ds.length = ds'.length) :
    Fits (topics ds) (topics ds') :=
  fits_given (by rw [isEmpty_eq_of_length_eq h]) fun _ =>
    .between (by simp [templates]) (fits_items h _ _) (by simp [templates])

theorem fits_namespaceList {nss nss' : List Namespace} (h : nss.length = nss'.length) :
    Fits (namespaceList nss) (namespaceList nss') :=
  .between (by simp [templates]) (fits_items h _ _) (by simp [templates])

variable {f f' : Frame}

theorem fits_sidebar (h : FramesAgree f f') : Fits (sidebar f) (sidebar f') :=
  fits_lit (by simp [templates]) |>.word _ _ |>.lit (by simp [templates])
    |>.append (fits_topics h.documents) |>.append (fits_namespaceList h.namespaces.length_eq)
    |>.lit (by simp [templates])

theorem fits_layout (h : FramesAgree f f') {title title' content content' : Markup}
    (htitle : Fits title title') (hcontent : Fits content content') :
    Fits (layout f title content) (layout f' title' content') :=
  fits_lit (by simp [templates]) |>.append htitle |>.lit (by simp [templates])
    |>.append (fits_sidebar h) |>.lit (by simp [templates]) |>.append hcontent
    |>.lit (by simp [templates])

theorem fits_indexEntry {ns ns' : Namespace} (h : ns.doc.truthy = ns'.doc.truthy) :
    Fits (indexEntry ns) (indexEntry ns') :=
  fits_lit (by simp [templates]) |>.append (fits_link _ _ _ _) |>.lit (by simp [templates])
    |>.append (fits_docText h) |>.lit (by simp [templates])

theorem fits_usage (name name' : Text) {as as' : List Text}
    (h : List.Forall₂ (fun a a' : Text => a = "[]" ↔ a' = "[]") as as') :
    Fits (usage name as) (usage name' as') := by
  refine fits_given (by rw [isEmpty_eq_of_length_eq h.length_eq]) fun _ => ?_
  refine .between (by simp [templates]) (fits_flatMap h fun a a' ha => ?_) (by simp [templates])
  have hparameters : Fits (given (a ≠ "[]") (lit " " ++ word (parameters a)))
      (given (a' ≠ "[]") (lit " " ++ word (parameters a'))) :=
    fits_given (by simp only [ne_eq, ha]) fun _ => fits_lit (by simp [templates]) |>.word _ _
  exact fits_lit (by simp [templates]) |>.word _ _ |>.append hparameters
    |>.lit (by simp [templates])

theorem fits_member {m m' : Var} (h : MembersAgree m m') : Fits (member m) (member m') := by
  have harglists := fits_flatMap (forall₂_of_length_eq h.arglists) fun a a' _ =>
    fits_lit (t := "<code>(") (by simp [templates]) |>.word m.name m'.name
      |>.lit (t := " ") (by simp [templates]) |>.word (parameters a) (parameters a')
      |>.lit (t := ")</code>") (by simp [templates])
  exact fits_lit (by simp [templates]) |>.word _ _ |>.lit (by simp [templates])
    |>.append harglists |>.append (fits_docText h.doc) |>.lit (by simp [templates])

theorem fits_members {v v' : Var} (h : v.members.isEmpty = v'.members.isEmpty)
    (hshown : List.Forall₂ MembersAgree v.visibleMembers v'.visibleMembers) :
    Fits (members v) (members v') :=
  fits_given (by rw [h]) fun _ =>
    .between (by simp [templates]) (fits_flatMap hshown fun _ _ => fits_member)
      (by simp [templates])

theorem fits_sourceLink {uri uri' : Option Text}
    (h : (uri.getD []).isEmpty = (uri'.getD []).isEmpty) :
    Fits (sourceLink uri) (sourceLink uri') :=
  fits_given (by rw [h]) fun _ =>
    .between (by simp [templates]) (fits_link _ _ _ _) (by simp [templates])

theorem fits_entry {e e' : PageEntry} (h : EntriesAgree e e') : Fits (entry e) (entry e') := by
  have hkind : Fits
      (given (e.var.facts.kind ≠ "var")
        (lit "<span class=\"type\">" ++ word e.var.facts.kind ++ lit "</span>"))
      (given (e'.var.facts.kind ≠ "var")
        (lit "<span class=\"type\">" ++ word e'.var.facts.kind ++ lit "</span>")) :=
    fits_given (by simp only [ne_eq, h.kind]) fun _ =>
      .between (by simp [templates]) (fits_word _ _) (by simp [templates])
  exact fits_lit (by simp [templates]) |>.word _ _ |>.lit (by simp [templates]) |>.word _ _
    |>.lit (by simp [templates]) |>.append hkind |>.append (fits_addedText h.added)
    |>.append (fits_deprecatedText h.deprecated) |>.append (fits_usage _ _ h.arglists)
    |>.append (fits_docText h.doc) |>.append (fits_members h.members h.shown)
    |>.append (fits_sourceLink h.source) |>.lit (by simp [templates])

/-! ## Pages -/

theorem fits_index (h : FramesAgree f f') : Fits (index f) (index f') := by
  have hversion {m m' : Markup} (hm : Fits m m') :
      Fits (given (!f.version.isEmpty) m) (given (!f'.version.isEmpty) m') :=
    fits_given (by rw [h.version]) fun _ => hm
  have hdescription : Fits
      (given (!f.description.isEmpty)
        (lit "<p class=\"description\">" ++ word f.description ++ lit "</p>"))
      (given (!f'.description.isEmpty)
        (lit "<p class=\"description\">" ++ word f'.description ++ lit "</p>")) :=
    fits_given (by rw [h.description]) fun _ =>
      .between (by simp [templates]) (fits_word _ _) (by simp [templates])
  refine fits_layout h ?_ ?_
  · exact fits_word _ _ |>.append (hversion (fits_lit (by simp [templates]) |>.word _ _))
  · exact fits_lit (by simp [templates]) |>.word _ _
      |>.append (hversion (.between (by simp [templates]) (fits_word _ _) (by simp [templates])))
      |>.lit (by simp [templates]) |>.append hdescription
      |>.append (fits_flatMap h.namespaces fun _ _ => fits_indexEntry)

theorem fits_ofNamespace (h : FramesAgree f f') {ns ns' : Namespace} {es es' : List PageEntry}
    (hns : NamespacesAgree ns ns' es es') :
    Fits (ofNamespace f ns es) (ofNamespace f' ns' es') := by
  refine fits_layout h ((fits_word _ _).lit (by simp [templates])) ?_
  exact fits_lit (by simp [templates]) |>.word _ _ |>.lit (by simp [templates])
    |>.append (fits_addedText hns.added) |>.append (fits_deprecatedText hns.deprecated)
    |>.append (fits_docText hns.doc) |>.append (fits_flatMap hns.entries fun _ _ => fits_entry)

theorem fits_ofDocument (h : FramesAgree f f') (d d' : Document) :
    Fits (ofDocument f d) (ofDocument f' d') := by
  refine fits_layout h (fits_word _ _) ?_
  exact fits_lit (by simp [templates]) |>.word _ _ |>.lit (by simp [templates]) |>.word _ _
    |>.lit (by simp [templates]) |>.word _ _ |>.lit (by simp [templates])

end Page

/-! ## Sites -/

def Site.entries (s : Site) (commit : Text) (ns : Namespace) : List PageEntry :=
  ns.visible.map fun v => ⟨v, linkWith s.options commit v.facts⟩

/-- Every condition and every loop of the templates comes out the same for two sites. -/
structure Site.Agrees (s : Site) (commit : Text) (s' : Site) (commit' : Text) : Prop where
  version : s.frame.version.isEmpty = s'.frame.version.isEmpty
  description : s.frame.description.isEmpty = s'.frame.description.isEmpty
  documents : s.documents.length = s'.documents.length
  namespaces : List.Forall₂ (fun ns ns' =>
      Page.NamespacesAgree ns ns' (s.entries commit ns) (s'.entries commit' ns'))
    s.visible s'.visible

variable {s s' : Site} {commit commit' : Text}

theorem Site.Agrees.refl (s : Site) (commit : Text) : s.Agrees commit s commit where
  version := rfl
  description := rfl
  documents := rfl
  namespaces := List.forall₂_same.2 fun _ _ =>
    { added := rfl
      deprecated := ⟨rfl, fun _ => rfl⟩
      doc := rfl
      entries := List.forall₂_same.2 fun _ _ =>
        { kind := .rfl
          added := rfl
          deprecated := ⟨rfl, fun _ => rfl⟩
          arglists := List.forall₂_same.2 fun _ _ => .rfl
          doc := rfl
          members := rfl
          shown := List.forall₂_same.2 fun _ _ => ⟨rfl, rfl⟩
          source := rfl } }

theorem Site.Agrees.frames (h : s.Agrees commit s' commit') :
    Page.FramesAgree s.frame s'.frame where
  version := h.version
  description := h.description
  documents := h.documents
  namespaces := h.namespaces.imp fun _ _ hns => hns.doc

/-- Pages of sites for which the templates come out the same differ only in their fields. -/
theorem Site.Agrees.fits (h : s.Agrees commit s' commit') :
    List.Forall₂ (fun p p' => Page.Fits (p.page s commit) (p'.page s' commit'))
      s.subjects s'.subjects := by
  refine .cons (Page.fits_index h.frames) (List.rel_append ?_ ?_)
  · simp only [List.forall₂_map_left_iff, List.forall₂_map_right_iff]
    exact h.namespaces.imp fun ns ns' => Page.fits_ofNamespace h.frames
  · simp only [List.forall₂_map_left_iff, List.forall₂_map_right_iff]
    exact (Page.forall₂_of_length_eq h.documents).imp fun d d' _ =>
      Page.fits_ofDocument h.frames d d'

theorem Subject.fits_page {p : Subject} (h : p ∈ s.subjects) (commit : Text) :
    Page.Fits (p.page s commit) (p.page s commit) :=
  List.forall₂_same.1 (Site.Agrees.refl s commit).fits p h

/-! ## Files -/

namespace Workspace

structure Fills (good : Bytes → Prop) (w w' : Workspace) : Prop where
  logging : w'.logging = w.logging
  files : ∀ place bytes, ¬w.LogsTo place → w'.tree.entry? place = some (.file bytes) →
    w.tree.entry? place = some (.file bytes) ∨ good bytes

variable {good : Bytes → Prop} {w w' w'' : Workspace}

theorem Fills.trans (h : Fills good w w') (h' : Fills good w' w'') : Fills good w w'' where
  logging := h'.logging.trans h.logging
  files place bytes unlogged hfile := by
    have unlogged' : ¬w'.LogsTo place := by
      unfold LogsTo
      rwa [h.logging]
    rcases h'.files place bytes unlogged' hfile with hfile | hgood
    · exact h.files place bytes unlogged hfile
    · exact .inr hgood

/-- What writes nothing but logs leaves the other files as they are. -/
theorem Changes.fills (h : Changes (fun _ => False) w w') : Fills good w w' where
  logging := h.logging
  files place bytes unlogged hfile := by
    rcases h.tree place with heq | ⟨-, hdirectory⟩ | ⟨hlogged | hnever, -⟩
    · exact .inl (heq ▸ hfile)
    · rw [hfile] at hdirectory
      cases hdirectory
    · exact absurd hlogged unlogged
    · exact hnever.elim

theorem Looks.fills (h : w.Looks w') : Fills good w w' where
  logging := h.logging
  files _ _ _ hfile := .inl (h.tree ▸ hfile)

theorem Fills.mono {good' : Bytes → Prop} (h : Fills good w w')
    (hgood : ∀ bytes, good bytes → good' bytes) : Fills good' w w' where
  logging := h.logging
  files place bytes unlogged hfile := (h.files place bytes unlogged hfile).imp_right (hgood bytes)

end Workspace

namespace Action

variable {α β : Type} {good : Bytes → Prop}

theorem fills_bind {x : Action α} {next : α → Action β} {w : Workspace}
    (hx : w.Fills good (x w).2)
    (hnext : ∀ a mid, x w = (.ok a, mid) → mid.Fills good (next a mid).2) :
    w.Fills good ((x >>= next) w).2 :=
  related_bind (r := Workspace.Fills good) (fun h h' => h.trans h') hx hnext

theorem Confined.fills {x : Action α} {w : Workspace} (h : Confined w.cwd (fun _ => False) x) :
    w.Fills good (x w).2 :=
  (h w rfl).fills

theorem fills_write {p : Path} {bytes : Bytes} (hgood : good bytes) (w : Workspace) :
    w.Fills good (change (fun cwd t => t.write cwd p bytes) w).2 := by
  unfold change
  split
  case h_1 tree htree =>
    obtain ⟨hnot, rfl⟩ := FileTree.eq_put_of_write htree
    refine ⟨rfl, fun place found _ hfile => ?_⟩
    by_cases hplace : place = (Path.resolve w.cwd p).names
    · subst hplace
      rw [FileTree.entry?_put_self (FileTree.ne_nil_of_entry?_ne hnot)] at hfile
      cases hfile
      exact .inr hgood
    · rw [FileTree.entry?_put_of_ne hplace] at hfile
      exact .inl hfile
  case h_2 => exact (Workspace.Changes.refl w).fills

theorem fills_writeText {p : Path} {t : Text} (hempty : good [])
    (hgood : ∀ bytes, Utf8.encode t = .ok bytes → good bytes) (w : Workspace) :
    w.Fills good (writeText p t w).2 := by
  refine fills_bind (fills_write hempty w) fun _ mid _ => ?_
  cases hbytes : Utf8.encode t with
  | ok bytes => exact fills_write (hgood bytes hbytes) mid
  | error e => exact (confined_fail _).fills

end Action

/-! ## Files with links -/

namespace Action

variable {α β : Type} {good : Text → Bytes → Prop} {w : Workspace}

/-- Whatever comes of the action, what is new in files is good for the commit as it is known at
any later time. -/
structure Prints (good : Text → Bytes → Prop) (x : Action α) (w : Workspace) : Prop where
  remembers : w.Remembers (x w).2
  fills {last : Workspace} (hlast : (x w).2.Remembers last) :
    w.Fills (good last.commitText) (x w).2

theorem Prints.bind {x : Action α} {next : α → Action β} (hx : Prints good x w)
    (hnext : ∀ a mid, x w = (.ok a, mid) → Prints good (next a) mid) :
    Prints good (x >>= next) w := by
  obtain ⟨hremembers, hfills⟩ := hx
  match h : x w with
  | (.error e, mid) =>
      rw [h] at hremembers hfills
      constructor <;> rw [bind_apply, h] <;> assumption
  | (.ok a, mid) =>
      rw [h] at hremembers hfills
      obtain ⟨hremembers', hfills'⟩ := hnext a mid h
      constructor <;> rw [bind_of_ok h]
      · exact hremembers.trans hremembers'
      · exact fun hlast => (hfills (hremembers'.trans hlast)).trans (hfills' hlast)

theorem Yields.prints {x : Action α} {g : Text → α} (hx : Yields x g) (w : Workspace) :
    Prints good x w :=
  ⟨(hx.looks w).commit, fun _ => (hx.looks w).fills⟩

theorem Unasking.prints {x : Action α} (hx : Unasking x)
    (h : ∀ last, w.Remembers last → w.Fills (good last.commitText) (x w).2) :
    Prints good x w := by
  have hremembers : w.Remembers (x w).2 := fun v hv => (hx.commit w).trans hv
  exact ⟨hremembers, fun hlast => h _ (hremembers.trans hlast)⟩

theorem prints_forM {f : α → Action Unit} {as : List α}
    (h : ∀ a ∈ as, ∀ w, Prints good (f a) w) (w : Workspace) : Prints good (as.forM f) w := by
  induction as generalizing w with
  | nil => exact (yields_pure ()).prints w
  | cons a as ih =>
      obtain ⟨ha, has⟩ := List.forall_mem_cons.1 h
      exact (ha w).bind fun _ mid _ => ih has mid

theorem prints_ensureDirectory (p : Path) (w : Workspace) : Prints good (ensureDirectory p) w :=
  (unasking_change _).prints fun _ _ => (confined_ensureDirectory p).fills

theorem prints_logAs (part : Text) (level : Level) (message : Text) (w : Workspace) :
    Prints good (logAs part level message) w :=
  (unasking_logAs _ _ _).prints fun _ _ => (confined_logAs _ _ _).fills

theorem prints_ofExcept (e : Except Failure α) (w : Workspace) : Prints good (ofExcept e) w :=
  (unasking_ofExcept e).prints fun _ _ => (confined_ofExcept e).fills

theorem prints_writeText {p : Path} {t : Text} (hempty : ∀ commit, good commit [])
    (hgood : ∀ last, w.Remembers last → ∀ bytes, Utf8.encode t = .ok bytes →
      good last.commitText bytes) : Prints good (writeText p t) w :=
  (unasking_writeText p t).prints fun last hlast =>
    fills_writeText (hempty _) (hgood last hlast) w

end Action

namespace Writer

open Docsmith.Action

/-- The bytes are those of a page of the site, or none. -/
def IsPage (s : Site) (bytes : Bytes) : Prop :=
  bytes = [] ∨ ∃ p ∈ s.subjects, ∃ commit, Utf8.encode (p.page s commit).text = .ok bytes

def IsPageWith (s : Site) (commit : Text) (bytes : Bytes) : Prop :=
  bytes = [] ∨ ∃ p ∈ s.subjects, Utf8.encode (p.page s commit).text = .ok bytes

theorem IsPageWith.isPage {bytes : Bytes} (h : IsPageWith s commit bytes) : IsPage s bytes := by
  refine h.imp_right ?_
  rintro ⟨p, hp, hbytes⟩
  exact ⟨p, hp, commit, hbytes⟩

theorem prints_writeSubject {p : Subject} (hp : p ∈ s.subjects) (w : Workspace) :
    Prints (IsPageWith s) (writeSubject s p) w := by
  have hyields := yields_draft s p
  rw [writeSubject_eq]
  refine (hyields.prints w).bind fun page mid hdraft => ?_
  refine (prints_ofExcept _ mid).bind fun text mid' hgiven => ?_
  obtain ⟨hrender, rfl⟩ := eq_of_ofExcept hgiven
  obtain rfl := Markup.text_eq_of_render hrender
  refine prints_writeText (fun _ => .inl rfl) fun last hlast bytes hbytes => .inr ⟨p, hp, ?_⟩
  rwa [← hyields.result hdraft hlast]

/-- Whether or not all pages can be written, what is new in files is a page or nothing.  All
links are made with the commit as it is known in the end. -/
theorem prints_writeHtml (s : Site) (w : Workspace) : Prints (IsPageWith s) (writeHtml s) w := by
  rw [writeHtml_eq]
  refine (prints_ensureDirectory _ w).bind fun _ mid _ => ?_
  refine (prints_forM (fun p hp => prints_writeSubject hp) mid).bind fun _ done _ => ?_
  exact prints_logAs _ _ _ done

/-- Fields put no markup into pages.  All that is written is pages of the site; every fragment of
a page is a text of a template, or a field that shows no mark; and in sites for which the
templates come out the same, pages have the same marks. -/
theorem pages_escape_fields (s : Site) :
    (∀ w result w', Writer.html.write s w = (result, w') →
      ∀ place bytes, ¬w.LogsTo place → w'.tree.entry? place = some (.file bytes) →
        w.tree.entry? place = some (.file bytes) ∨ IsPage s bytes) ∧
    (∀ p ∈ s.subjects, ∀ commit, ∀ f ∈ p.page s commit,
      (∃ t ∈ Page.templates, f = .markup t) ∨ ∃ v, f = .field v ∧ Markup.marks f.text = []) ∧
    ∀ s' commit commit', s.Agrees commit s' commit' →
      List.Forall₂ (fun p p' => Markup.marks (p.page s commit).text =
        Markup.marks (p'.page s' commit').text) s.subjects s'.subjects := by
  refine ⟨fun w result w' h => ?_, fun p hp commit f hf => ?_, fun s' commit commit' h => ?_⟩
  · have hfills := (prints_writeHtml s w).fills (.refl _)
    rw [show writeHtml s w = (result, w') from h] at hfills
    exact (hfills.mono fun _ => IsPageWith.isPage).files
  · exact (Subject.fits_page hp commit).template_or_field hf
  · exact h.fits.imp fun _ _ hfits => hfits.marks_text_eq

def labelled (t : Text) : Namespace :=
  { name := some t, doc := .str t,
    publics := [.mk { name := t, kind := t, doc := .str t, arglists := [t] } []] }

def labelledSite (t : Text) : Site :=
  { options := { root := ⟨true, []⟩, commit := .known .null, name := some t },
    namespaces := [labelled t],
    documents := [{ name := t, content := t, path := t }] }

theorem pages_escape_fields_labelled :
    (labelledSite "</pre><script>").Agrees [] (labelledSite "b") [] ∧
      List.Forall₂ (fun p p' => Markup.marks (p.page (labelledSite "</pre><script>") []).text =
        Markup.marks (p'.page (labelledSite "b") []).text)
        (labelledSite "</pre><script>").subjects (labelledSite "b").subjects := by
  have hvisible (t : Text) : (labelledSite t).visible = [labelled t] := by
    simp [Site.visible, labelledSite, labelled, Value.truthy]
  have hentries (t : Text) : (labelledSite t).entries [] (labelled t) =
      [⟨.mk { name := t, kind := t, doc := .str t, arglists := [t] } [], none⟩] := by
    simp [Site.entries, Namespace.visible, labelledSite, labelled, linkWith, Var.facts,
      Value.truthy]
  have hagrees : (labelledSite "</pre><script>").Agrees [] (labelledSite "b") [] := by
    refine ⟨rfl, rfl, rfl, ?_⟩
    rw [hvisible, hvisible]
    refine .cons ⟨rfl, ⟨rfl, fun _ => rfl⟩, rfl, ?_⟩ .nil
    rw [hentries, hentries]
    exact .cons ⟨by decide, rfl, ⟨rfl, fun _ => rfl⟩, .cons (by decide) .nil, rfl, rfl, .nil, rfl⟩
      .nil
  exact ⟨hagrees, (pages_escape_fields _).2.2 _ _ _ hagrees⟩

end Writer

end Docsmith
