import Docsmith.Proofs.Escaping

/-!
# Where the links of pages lead

A page is read back as the tags in its text: fields have no tags in them, so these are the tags of
the templates, and the targets in them are the names of files with the special characters escaped.
The sidebar of every page and the list on the index lead to files that are written with the page.
-/

namespace Docsmith

namespace Markup

/-! ## Reading markup -/

def tags : Text → List Text
  | [] => []
  | c :: t => if c = '<' then t.takeWhile (· ≠ CodePoint.ofChar '>') :: tags t else tags t

def inside (opening closing : Text) (ts : List Text) : List Text :=
  ((ts.dropWhile (· ≠ opening)).drop 1).takeWhile (· ≠ closing)

def unescape (t : Text) : Text :=
  go 0 t
where
  go : Nat → Text → Text
    | _, [] => []
    | n + 1, _ :: t => go n t
    | 0, c :: t =>
        match entities.find? fun e => e.2.isPrefixOf (c :: t) with
        | some e => e.1 :: go (e.2.length - 1) t
        | none => c :: go 0 t

def target? (tag : Text) : Option Text :=
  (Text.after? "a href=\"" tag).map fun t => unescape (t.takeWhile (· ≠ CodePoint.ofChar '"'))

theorem unescape_go_escapeChar (c : CodePoint) (t : Text) :
    unescape.go 0 (escapeChar c ++ t) = c :: unescape.go 0 t := by
  unfold escapeChar
  cases hc : entities.lookup c with
  | some e =>
      have hentities : ∀ e ∈ entities, unescape.go 0 (e.2 ++ t) = e.1 :: unescape.go 0 t := by
        simp only [entities, List.forall_mem_cons]
        exact ⟨rfl, rfl, rfl, rfl, rfl, nofun⟩
      obtain ⟨before, after, hsplit, -⟩ := List.lookup_eq_some_iff.1 hc
      exact hentities (c, e) (by simp [hsplit])
  | none =>
      have hamp : ('&' : CodePoint) ≠ c := by
        rintro rfl
        cases hc
      have hnone : (entities.find? fun e => e.2.isPrefixOf (c :: t)) = none := by
        simp [entities, Text.ofString, List.isPrefixOf, hamp]
      show unescape.go 0 (c :: t) = _
      rw [unescape.go, hnone]

theorem unescape_escape (t : Text) : unescape (escape t) = t := by
  unfold unescape
  induction t with
  | nil => rfl
  | cons c t ih =>
      calc unescape.go 0 (escape (c :: t)) = unescape.go 0 (escapeChar c ++ escape t) := rfl
        _ = c :: unescape.go 0 (escape t) := unescape_go_escapeChar c _
        _ = c :: t := by rw [ih]

theorem notMem_escape {c : CodePoint} (hc : isMark c = true) (t : Text) : c ∉ escape t := by
  intro h
  have hmarks : c ∈ marks (escape t) := List.mem_filter.2 ⟨h, hc⟩
  rw [marks_escape] at hmarks
  cases hmarks

theorem takeWhile_of_notMem {c : CodePoint} {t : Text} (h : c ∉ t) (u : Text) :
    (t ++ c :: u).takeWhile (· ≠ c) = t := by
  rw [List.takeWhile_append_of_pos, List.takeWhile_cons_of_neg (by simp), List.append_nil]
  intro d hd
  simpa using fun heq : d = c => h (heq ▸ hd)

theorem tags_append_of_notMem {t : Text} (h : ('<' : CodePoint) ∉ t) (u : Text) :
    tags (t ++ u) = tags u := by
  induction t with
  | nil => rfl
  | cons c t ih =>
      obtain ⟨hc, ht⟩ := not_or.1 (mt List.mem_cons.2 h)
      rw [List.cons_append, tags, if_neg (Ne.symm hc), ih ht]

theorem tags_tag {tag : Text} (hopen : ('<' : CodePoint) ∉ tag)
    (hclose : ('>' : CodePoint) ∉ tag) (u : Text) :
    tags (CodePoint.ofChar '<' :: (tag ++ CodePoint.ofChar '>' :: u)) = tag :: tags u := by
  rw [tags, if_pos rfl, takeWhile_of_notMem hclose, tags_append_of_notMem hopen]
  rfl

theorem inside_eq {opening closing : Text} {before body : List Text} (hopening : opening ∉ before)
    (hclosing : closing ∉ body) (after : List Text) :
    inside opening closing (before ++ opening :: (body ++ closing :: after)) = body := by
  have hdrop : (before ++ opening :: (body ++ closing :: after)).dropWhile (· ≠ opening) =
      opening :: (body ++ closing :: after) := by
    rw [List.dropWhile_append_of_pos, List.dropWhile_cons_of_neg (by simp)]
    intro t ht
    simpa using fun heq : t = opening => hopening (heq ▸ ht)
  rw [inside, hdrop, List.drop_one, List.tail_cons, List.takeWhile_append_of_pos,
    List.takeWhile_cons_of_neg (by simp), List.append_nil]
  intro t ht
  simpa using fun heq : t = closing => hclosing (heq ▸ ht)

theorem text_lit (t : Text) : text (lit t) = t := List.append_nil t

theorem text_append (m n : Markup) : text (m ++ n) = text m ++ text n := List.flatMap_append

/-! ## Markup with links -/

def landmarks : List Text := ["nav id=\"sidebar\"", "/nav", "main id=\"content\"", "/main"]

def Links (m : Markup) (targets : List Text) : Prop :=
  ∃ ts, (∀ u, tags (m.text ++ u) = ts ++ tags u) ∧ (∀ t ∈ ts, t ∉ landmarks) ∧
    ts.filterMap target? = targets

/-- A text in which every tag that begins also ends, and no tag is a landmark or that of a link. -/
def Plain (t : Text) : Prop :=
  (∀ s ∈ t.tails, s.head? = some (CodePoint.ofChar '<') → CodePoint.ofChar '>' ∈ s) ∧
    ∀ tag ∈ tags t, tag ∉ landmarks ∧ target? tag = none

instance (t : Text) : Decidable (Plain t) := inferInstanceAs (Decidable (_ ∧ _))

def plainTemplates : List String :=
  ["    <li>", "</li>\n", "  <h4>Topics</h4>\n  <ul>\n", "  <h4>Namespaces</h4>\n  <ul>\n",
    "  </ul>\n", "\n  <h3>", "</h3>\n", "</title>\n</head>\n<body>\n",
    "<!DOCTYPE html>\n<html>\n<head>\n<meta charset=\"utf-8\">\n<title>", "<h1>", "</h1>\n",
    " <span class=\"version\">", "</span>", "<p class=\"description\">", "</p>",
    "<div class=\"namespace\">\n  <h3>", "<pre class=\"doc\">", "</pre>", "</div>\n", " ",
    " documentation"]

theorem plain_of_mem : ∀ t ∈ plainTemplates, Plain t := by decide +kernel

section

variable {m n : Markup} {targets targets' : List Text}

theorem Links.append (h : Links m targets) (h' : Links n targets') :
    Links (m ++ n) (targets ++ targets') := by
  obtain ⟨ts, htags, hts, rfl⟩ := h
  obtain ⟨ts', htags', hts', rfl⟩ := h'
  refine ⟨ts ++ ts', fun u => ?_, List.forall_mem_append.2 ⟨hts, hts'⟩,
    List.filterMap_append⟩
  rw [text_append, List.append_assoc, htags, htags', List.append_assoc]

theorem Plain.tags_append {t : Text} (h : Plain t) (u : Text) :
    tags (t ++ u) = tags t ++ tags u := by
  obtain ⟨hwhole, -⟩ := h
  induction t with
  | nil => rfl
  | cons c t ih =>
      obtain ⟨hfirst, hrest⟩ := List.forall_mem_cons.1 hwhole
      by_cases hc : c = '<'
      · subst hc
        have hclose : CodePoint.ofChar '>' ∈ t :=
          (List.mem_cons.1 (hfirst rfl)).resolve_left (by decide)
        obtain ⟨tag, after, rfl, hnone⟩ := List.eq_append_cons_of_mem hclose
        have hcut (u : Text) : (tag ++ CodePoint.ofChar '>' :: u).takeWhile
            (· ≠ CodePoint.ofChar '>') = tag := takeWhile_of_notMem hnone u
        have hih := ih hrest
        simp only [List.append_assoc, List.cons_append] at hih
        simp only [List.append_assoc, List.cons_append, tags, if_pos, hcut, hih]
      · simp [tags, hc, ih hrest]

theorem links_lit {t : String} (h : t ∈ plainTemplates) : Links (lit t) [] := by
  have hplain := plain_of_mem t h
  refine ⟨tags t, fun u => ?_, fun tag htag => (hplain.2 tag htag).1, ?_⟩
  · rw [← hplain.tags_append, text_lit]
  · exact List.filterMap_eq_nil_iff.2 fun tag htag => (hplain.2 tag htag).2

theorem Links.between {t u : String} (ht : t ∈ plainTemplates) (h : Links m targets)
    (hu : u ∈ plainTemplates) : Links (lit t ++ m ++ lit u) targets := by
  simpa using ((links_lit ht).append h).append (links_lit hu)

theorem links_field (v : Value) : Links (field v) [] := by
  refine ⟨[], fun u => ?_, nofun, rfl⟩
  have htext : text (field v) = escape v.text := List.append_nil _
  rw [htext]
  exact tags_append_of_notMem (notMem_escape (by decide) _) u

theorem links_word (t : Text) : Links (word t) [] := links_field _

theorem links_nil : Links [] [] := ⟨[], fun _ => rfl, nofun, rfl⟩

theorem links_given {c : Bool} (h : Links m []) : Links (given c m) [] := by
  cases c with
  | true => exact h
  | false => exact links_nil

theorem links_flatMap {α : Type} {f : α → Markup} {g : α → List Text}
    (h : ∀ a, Links (f a) (g a)) (as : List α) : Links (as.flatMap f) (as.flatMap g) := by
  induction as with
  | nil => exact links_nil
  | cons a as ih => exact (h a).append ih

end

end Markup

namespace Page

open Markup

/-! ## Parts of pages -/

def linkTag (target : Text) : Text := "a href=\"" ++ (escape target ++ "\"")

theorem target?_linkTag (target : Text) : target? (linkTag target) = some target := by
  have hafter : Text.after? "a href=\"" (linkTag target) = some (escape target ++ "\"") := rfl
  have hquote : (escape target ++ Text.ofString "\"").takeWhile (· ≠ CodePoint.ofChar '"') =
      escape target :=
    takeWhile_of_notMem (notMem_escape (by decide) _) []
  rw [target?, hafter, Option.map_some, hquote, unescape_escape]

theorem notMem_linkTag {c : CodePoint} (hc : isMark c = true)
    (htemplate : c ∉ Text.ofString "a href=\"") (target : Text) : c ∉ linkTag target := by
  have hquote : c ∉ Text.ofString "\"" := by
    have hsplit : Text.ofString "a href=\"" = Text.ofString "a href=" ++ Text.ofString "\"" := rfl
    exact fun h => htemplate (hsplit ▸ List.mem_append_right _ h)
  simp only [linkTag, List.mem_append, not_or]
  exact ⟨htemplate, notMem_escape hc _, hquote⟩

theorem links_link (target label : Text) : Links (link target label) [target] := by
  have htext (u : Text) : (link target label).text ++ u =
      CodePoint.ofChar '<' :: (linkTag target ++ CodePoint.ofChar '>' ::
        (escape label ++ (Text.ofString "</a>" ++ u))) := by
    simp [link, linkTag, text, lit, word, field, Fragment.text, Value.text, Text.ofString]
  refine ⟨[linkTag target, "/a"], fun u => ?_, ?_, ?_⟩
  · have hopen := notMem_linkTag (c := CodePoint.ofChar '<') (by decide) (by decide) target
    have hclose := notMem_linkTag (c := CodePoint.ofChar '>') (by decide) (by decide) target
    rw [htext, tags_tag hopen hclose, tags_append_of_notMem (notMem_escape (by decide) _)]
    rfl
  · have hlandmarks : ∀ t ∈ landmarks, target? t = none := by decide +kernel
    refine List.forall_mem_cons.2 ⟨fun h => ?_, by decide +kernel⟩
    have htarget := hlandmarks _ h
    rw [target?_linkTag] at htarget
    cases htarget
  · rw [List.filterMap_cons_some (target?_linkTag target)]
    rfl

theorem links_items {α : Type} (target label : α → Text) (as : List α) :
    Links (as.flatMap fun a => lit "    <li>" ++ link (target a) (label a) ++ lit "</li>\n")
      (as.map target) := by
  rw [List.map_eq_flatMap]
  exact links_flatMap (fun a => .between (by simp [plainTemplates]) (links_link _ _)
    (by simp [plainTemplates])) as

theorem links_topics (ds : List Document) :
    Links (topics ds) (ds.map fun d => documentFile d.name) := by
  cases ds with
  | nil => exact links_nil
  | cons d ds =>
      exact .between (by simp [plainTemplates]) (links_items _ _ (d :: ds))
        (by simp [plainTemplates])

theorem links_namespaceList (nss : List Namespace) :
    Links (namespaceList nss) (nss.map fun ns => namespaceFile ns.name) :=
  .between (by simp [plainTemplates]) (links_items _ _ nss) (by simp [plainTemplates])

theorem links_docText (v : Value) : Links (docText v) [] :=
  links_given (.between (by simp [plainTemplates]) (links_field v) (by simp [plainTemplates]))

theorem links_indexEntry (ns : Namespace) : Links (indexEntry ns) [namespaceFile ns.name] := by
  have hname := Links.between (t := "<div class=\"namespace\">\n  <h3>") (u := "</h3>\n")
    (by simp [plainTemplates]) (links_link (namespaceFile ns.name) ns.label)
    (by simp [plainTemplates])
  have hdoc := (links_docText ns.doc).append
    (links_lit (t := "</div>\n") (by simp [plainTemplates]))
  simpa [indexEntry] using hname.append hdoc

def navigation (f : Frame) : Markup :=
  lit "\n  <h3>" ++ link "index.html" f.name ++ lit "</h3>\n" ++
    (topics f.documents ++ namespaceList f.namespaces)

def navigationFiles (f : Frame) : List Text :=
  "index.html" :: (f.documents.map (fun d => documentFile d.name) ++
    f.namespaces.map fun ns => namespaceFile ns.name)

theorem links_navigation (f : Frame) : Links (navigation f) (navigationFiles f) := by
  have hindex : Links (lit "\n  <h3>" ++ link "index.html" f.name ++ lit "</h3>\n")
      ["index.html"] :=
    .between (by simp [plainTemplates]) (links_link _ _) (by simp [plainTemplates])
  exact hindex.append ((links_topics _).append (links_namespaceList _))

theorem tags_opening (u : Text) : tags (Text.ofString "<nav id=\"sidebar\">" ++ u) =
    Text.ofString "nav id=\"sidebar\"" :: tags u := rfl

theorem text_layout (f : Frame) (title content : Markup) :
    (layout f title content).text =
      (lit "<!DOCTYPE html>\n<html>\n<head>\n<meta charset=\"utf-8\">\n<title>" ++ title ++
        lit "</title>\n</head>\n<body>\n").text ++
      (Text.ofString "<nav id=\"sidebar\">" ++ ((navigation f).text ++
        (Text.ofString "</nav>\n" ++ (Text.ofString "<main id=\"content\">\n" ++ (content.text ++
          Text.ofString "</main>\n</body>\n</html>"))))) := by
  have hnav : Text.ofString "<nav id=\"sidebar\">\n  <h3><a href=\"index.html\">" =
      Text.ofString "<nav id=\"sidebar\">" ++ (Text.ofString "\n  <h3>" ++
        (Text.ofString "<a href=\"" ++ (text (word "index.html") ++ Text.ofString "\">"))) := by
    decide +kernel
  have hname : Text.ofString "</a></h3>\n" = Text.ofString "</a>" ++ Text.ofString "</h3>\n" := by
    decide +kernel
  simp only [layout, sidebar, navigation, link, text_append, text_lit, List.append_assoc, hnav,
    hname]

theorem exists_tags_layout (f : Frame) {title : Markup} (htitle : Links title [])
    (content : Markup) : ∃ before body : List Text,
      (∀ t ∈ before, t ∉ landmarks) ∧ (∀ t ∈ body, t ∉ landmarks) ∧
      body.filterMap target? = navigationFiles f ∧
      tags (layout f title content).text =
        before ++ Text.ofString "nav id=\"sidebar\"" :: (body ++ Text.ofString "/nav" ::
          Text.ofString "main id=\"content\"" ::
            tags (content.text ++ Text.ofString "</main>\n</body>\n</html>")) := by
  have hhead : Links (lit "<!DOCTYPE html>\n<html>\n<head>\n<meta charset=\"utf-8\">\n<title>" ++
      title ++ lit "</title>\n</head>\n<body>\n") [] :=
    .between (by simp [plainTemplates]) htitle (by simp [plainTemplates])
  obtain ⟨before, hbefore, hplain, -⟩ := hhead
  obtain ⟨body, hbody, hplain', htargets⟩ := links_navigation f
  refine ⟨before, body, hplain, hplain', htargets, ?_⟩
  rw [text_layout, hbefore, tags_opening, hbody]
  rfl

def sidebarTargets (page : Text) : List Text :=
  (inside "nav id=\"sidebar\"" "/nav" (tags page)).filterMap target?

def contentTargets (page : Text) : List Text :=
  (inside "main id=\"content\"" "/main" (tags page)).filterMap target?

theorem sidebarTargets_layout (f : Frame) {title : Markup} (htitle : Links title [])
    (content : Markup) :
    sidebarTargets (layout f title content).text = navigationFiles f := by
  obtain ⟨before, body, hbefore, hbody, htargets, htags⟩ := exists_tags_layout f htitle content
  rw [sidebarTargets, htags, inside_eq (fun h => hbefore _ h (by decide +kernel))
    (fun h => hbody _ h (by decide +kernel)), htargets]

theorem contentTargets_layout (f : Frame) {title content : Markup} (htitle : Links title [])
    {targets : List Text} (hcontent : Links content targets) :
    contentTargets (layout f title content).text = targets := by
  obtain ⟨before, body, hbefore, hbody, -, htags⟩ := exists_tags_layout f htitle content
  obtain ⟨ts, hts, hplain, rfl⟩ := hcontent
  have hclosing : tags (Text.ofString "</main>\n</body>\n</html>") =
      Text.ofString "/main" :: [Text.ofString "/body", Text.ofString "/html"] := rfl
  have hsplit : tags (layout f title content).text =
      (before ++ Text.ofString "nav id=\"sidebar\"" :: (body ++ [Text.ofString "/nav"])) ++
        Text.ofString "main id=\"content\"" :: (ts ++ Text.ofString "/main" ::
          [Text.ofString "/body", Text.ofString "/html"]) := by
    rw [htags, hts, hclosing]
    simp only [List.append_assoc, List.cons_append, List.nil_append]
  have hopening : Text.ofString "main id=\"content\"" ∉
      before ++ Text.ofString "nav id=\"sidebar\"" :: (body ++ [Text.ofString "/nav"]) := by
    have hlandmark : Text.ofString "main id=\"content\"" ∈ landmarks := by decide +kernel
    simp only [List.mem_append, List.mem_cons, not_or]
    exact ⟨fun h => hbefore _ h hlandmark, by decide +kernel, fun h => hbody _ h hlandmark,
      by decide +kernel, List.not_mem_nil⟩
  rw [contentTargets, hsplit, inside_eq hopening fun h => hplain _ h (by decide +kernel)]

/-! ## Pages -/

theorem links_index (f : Frame) : ∃ title content, index f = layout f title content ∧
    Links title [] ∧ Links content (f.namespaces.map fun ns => namespaceFile ns.name) := by
  refine ⟨_, _, rfl, ?_, ?_⟩
  · have hversion : Links (lit " " ++ word f.version) [] :=
      (links_lit (by simp [plainTemplates])).append (links_word _)
    exact (links_word _).append (links_given hversion)
  · have hversion :
        Links (lit " <span class=\"version\">" ++ word f.version ++ lit "</span>") [] :=
      .between (by simp [plainTemplates]) (links_word _) (by simp [plainTemplates])
    have hname := Links.between (t := "<h1>") (u := "</h1>\n") (by simp [plainTemplates])
      ((links_word f.name).append (links_given (c := !f.version.isEmpty) hversion))
      (by simp [plainTemplates])
    have hdescription :
        Links (lit "<p class=\"description\">" ++ word f.description ++ lit "</p>") [] :=
      .between (by simp [plainTemplates]) (links_word _) (by simp [plainTemplates])
    have hentries := links_flatMap links_indexEntry f.namespaces
    rw [← List.map_eq_flatMap] at hentries
    have hlead := hname.append (links_given (c := !f.description.isEmpty) hdescription)
    simpa using hlead.append hentries

end Page

variable {s : Site}

theorem Subject.exists_layout (s : Site) (commit : Text) (p : Subject) :
    ∃ title content, p.page s commit = Page.layout s.frame title content ∧
      Markup.Links title [] := by
  cases p with
  | index =>
      obtain ⟨title, content, hpage, htitle, -⟩ := Page.links_index s.frame
      exact ⟨title, content, hpage, htitle⟩
  | ofNamespace ns =>
      have htitle : Markup.Links (Markup.lit " documentation") [] :=
        Markup.links_lit (by simp [Markup.plainTemplates])
      exact ⟨_, _, rfl, (Markup.links_word _).append htitle⟩
  | ofDocument d => exact ⟨_, _, rfl, Markup.links_word _⟩

def Subject.fileName (p : Subject) : Text := p.stem ++ ".html"

theorem Page.mem_navigationFiles_iff {name : Text} :
    name ∈ Page.navigationFiles s.frame ↔ ∃ p ∈ s.subjects, name = p.fileName := by
  simp only [navigationFiles, Site.subjects, List.mem_cons, List.mem_append, List.mem_map]
  constructor
  · rintro (rfl | ⟨d, hd, rfl⟩ | ⟨ns, hns, rfl⟩)
    · exact ⟨.index, .inl rfl, rfl⟩
    · exact ⟨.ofDocument d, .inr (.inr ⟨d, hd, rfl⟩), rfl⟩
    · exact ⟨.ofNamespace ns, .inr (.inl ⟨ns, hns, rfl⟩), rfl⟩
  · rintro ⟨_, rfl | ⟨ns, hns, rfl⟩ | ⟨d, hd, rfl⟩, rfl⟩
    · exact .inl rfl
    · exact .inr (.inr ⟨ns, hns, rfl⟩)
    · exact .inr (.inl ⟨d, hd, rfl⟩)

theorem Subject.sidebarTargets_page (p : Subject) (commit : Text) :
    Page.sidebarTargets (p.page s commit).text = Page.navigationFiles s.frame := by
  obtain ⟨title, content, hpage, htitle⟩ := p.exists_layout s commit
  rw [hpage, Page.sidebarTargets_layout _ htitle]

theorem Subject.contentTargets_index (commit : Text) :
    Page.contentTargets (Subject.index.page s commit).text =
      s.visible.map fun ns => (Subject.ofNamespace ns).fileName := by
  obtain ⟨title, content, hpage, htitle, hcontent⟩ := Page.links_index s.frame
  have hpage : Subject.index.page s commit = _ := hpage
  rw [hpage, Page.contentTargets_layout _ htitle hcontent]
  rfl

/-- The place of the file that has a name in the output directory. -/
def Options.placeOf (o : Options) (cwd : Path) (name : Text) : List Text :=
  (Path.resolve cwd (o.outputDir.join (Path.ofText name))).names

theorem Subject.encloses_place {p : Subject} (h : p.isSlashed = false) (o : Options) (cwd : Path) :
    o.Encloses cwd (o.placeOf cwd p.fileName) := by
  have hplace : o.placeOf cwd p.fileName = _ := place_of_not_isSlashed h o cwd
  rw [hplace]
  exact o.encloses_below cwd _

/-! ## What a call writes -/

namespace Writer

open Docsmith.Action

/-- When the pages before that of a subject have been written, the page is put together, and its
text is written to its file in the output directory. -/
def Writes (s : Site) (w : Workspace) (p : Subject) (text : Text) : Prop :=
  ∃ (before after : List Subject) (begun ready next : Workspace),
    s.subjects = before ++ p :: after ∧
    (ensureDirectory s.options.outputDir >>= fun _ => before.forM (writeSubject s)) w =
      (.ok (), begun) ∧
    (draft s p >>= fun page => Action.ofExcept page.render) begun = (.ok text, ready) ∧
    writeText (s.options.outputDir.join (Path.ofText p.fileName)) text ready = (.ok (), next)

variable {w w' : Workspace}

theorem Writes.mem {p : Subject} {text : Text} (h : Writes s w p text) : p ∈ s.subjects := by
  obtain ⟨before, after, _, _, _, hsplit, -⟩ := h
  simp [hsplit]

theorem Writes.exists_page {p : Subject} {text : Text} (h : Writes s w p text) :
    ∃ commit, text = (p.page s commit).text := by
  obtain ⟨_, _, begun, ready, _, -, -, hready, -⟩ := h
  obtain ⟨page, mid, hdraft, hrender⟩ := exists_of_bind hready
  obtain ⟨hrender, -⟩ := eq_of_ofExcept hrender
  have hpage := (yields_draft s p).result hdraft (.refl mid)
  exact ⟨mid.commitText, hpage ▸ (Markup.text_eq_of_render hrender).symm⟩

theorem exists_writes (h : Writer.html.write s w = (.ok (), w')) {p : Subject}
    (hp : p ∈ s.subjects) : ∃ text, Writes s w p text := by
  obtain ⟨before, after, hsplit⟩ := List.append_of_mem hp
  have h : writeHtml s w = (.ok (), w') := h
  rw [writeHtml_eq, hsplit] at h
  obtain ⟨_, started, hensure, h⟩ := exists_of_bind h
  obtain ⟨_, done, hpages, -⟩ := exists_of_bind h
  obtain ⟨begun, hbefore, hpages⟩ := exists_of_forM_append hpages
  obtain ⟨_, next, hpage, -⟩ := exists_of_bind hpages
  rw [writeSubject_eq] at hpage
  obtain ⟨page, drafted, hdraft, hpage⟩ := exists_of_bind hpage
  obtain ⟨text, ready, hrender, hwrite⟩ := exists_of_bind hpage
  exact ⟨text, before, after, begun, ready, next, hsplit, (bind_of_ok hensure).trans hbefore,
    (bind_of_ok hdraft).trans hrender, hwrite⟩

variable {cwd : Path}

theorem confined_draft {written : List Text → Prop} (s : Site) (p : Subject) :
    Confined cwd written (draft s p) := by
  cases p with
  | index => exact confined_pure _
  | ofNamespace ns => exact confined_bind (confined_pageEntries _ _) fun _ => confined_pure _
  | ofDocument d => exact confined_pure _

theorem leaves_page {p : Subject} (hp : p ∈ s.subjects) :
    Leaves cwd (s.options.placeOf cwd p.fileName) (writeHtml s) := by
  have hconfined (q : Subject) : Confined cwd (fun _ => True) (writeSubject s q) := by
    rw [writeSubject_eq]
    exact confined_bind (confined_draft s q) fun _ => confined_writePage trivial _
  have hleaves : Leaves cwd (s.options.placeOf cwd p.fileName) (writeSubject s p) := by
    rw [writeSubject_eq]
    refine leaves_bind (confined_draft s p) fun _ => ?_
    exact leaves_bind (confined_ofExcept _) fun _ => leaves_writeText _ _
  rw [writeHtml_eq]
  refine leaves_bind (confined_ensureDirectory _) fun _ => ?_
  exact (leaves_forM hp (fun q _ => hconfined q) hleaves).bind
    (confined_forM fun q _ => hconfined q) fun _ => confined_logAs _ _ _

/-- A name in the output directory is that of a page which is written, and its file is there in
the end.  The file lies in the directory unless the page is that of a name with a slash. -/
def Reaches (s : Site) (w w' : Workspace) (name : Text) : Prop :=
  ∃ p text, Writes s w p text ∧ name = p.fileName ∧
    w'.tree.Holds (s.options.placeOf w.cwd name) ∧
    (p.isSlashed = false → s.options.Encloses w.cwd (s.options.placeOf w.cwd name))

theorem reaches_of_mem (h : Writer.html.write s w = (.ok (), w')) {p : Subject}
    (hp : p ∈ s.subjects) : Reaches s w w' p.fileName := by
  obtain ⟨text, hwrites⟩ := exists_writes h hp
  exact ⟨p, text, hwrites, rfl, leaves_page hp w () w' rfl h, fun hplain =>
    p.encloses_place hplain _ _⟩

/-- Each link in the sidebar of a page leads to a page that is written, and so does each in the
content of the index, which has one for each namespace that is shown.  Each page is linked from
the sidebar of every page. -/
theorem links_reach_pages (h : Writer.html.write s w = (.ok (), w')) :
    (∀ p ∈ s.subjects, ∃ text, Writes s w p text) ∧
    (∀ p text, Writes s w p text →
      (∀ name ∈ Page.sidebarTargets text, Reaches s w w' name) ∧
      ∀ q text', Writes s w q text' → q.fileName ∈ Page.sidebarTargets text) ∧
    ∀ text, Writes s w .index text →
      Page.contentTargets text = s.visible.map (fun ns => (Subject.ofNamespace ns).fileName) ∧
      ∀ name ∈ Page.contentTargets text, Reaches s w w' name := by
  refine ⟨fun p => exists_writes h, fun p text hwrites => ?_, fun text hwrites => ?_⟩
  · obtain ⟨commit, rfl⟩ := hwrites.exists_page
    rw [p.sidebarTargets_page]
    constructor
    · intro name hname
      obtain ⟨q, hq, rfl⟩ := Page.mem_navigationFiles_iff.1 hname
      exact reaches_of_mem h hq
    · exact fun q _ hq => Page.mem_navigationFiles_iff.2 ⟨q, hq.mem, rfl⟩
  · obtain ⟨commit, rfl⟩ := hwrites.exists_page
    rw [Subject.contentTargets_index]
    refine ⟨rfl, List.forall_mem_map.2 fun ns hns => reaches_of_mem h ?_⟩
    simp [Site.subjects, hns]

def namedSite (name : Text) : Site :=
  { options := { root := ⟨true, []⟩, commit := .known .null },
    namespaces := [{ name := some name }], documents := [] }

theorem exists_write_namedSite (name : Text)
    (hdone : (Writer.html.write (namedSite name) emptyWorkspace).1 = .ok ()) :
    ∃ w', Writer.html.write (namedSite name) emptyWorkspace = (.ok (), w') :=
  ⟨_, Prod.ext hdone rfl⟩

theorem links_reach_pages_named :
    ∃ w' text, Writer.html.write (namedSite "a&b") emptyWorkspace = (.ok (), w') ∧
      Writes (namedSite "a&b") emptyWorkspace .index text ∧
      Page.contentTargets text = [Text.ofString "a&b.html"] ∧
      Reaches (namedSite "a&b") emptyWorkspace w' "a&b.html" := by
  obtain ⟨w', hwrite⟩ := exists_write_namedSite "a&b" (by decide +kernel)
  obtain ⟨hwrites, -, hcontent⟩ := links_reach_pages hwrite
  obtain ⟨text, htext⟩ := hwrites .index List.mem_cons_self
  obtain ⟨htargets, hreaches⟩ := hcontent text htext
  have hvisible : (namedSite "a&b").visible.map (fun ns => (Subject.ofNamespace ns).fileName) =
      [Text.ofString "a&b.html"] := by decide +kernel
  rw [hvisible] at htargets
  exact ⟨w', text, hwrite, htext, htargets, hreaches _ (htargets ▸ List.mem_cons_self)⟩

/-- The link to a namespace named `../e` leads to no file in the output directory. -/
theorem sidebar_leads_outside :
    ∃ w' text, Writer.html.write (namedSite "../e") emptyWorkspace = (.ok (), w') ∧
      Writes (namedSite "../e") emptyWorkspace .index text ∧
      ∃ name ∈ Page.sidebarTargets text,
        ¬(namedSite "../e").options.Encloses emptyWorkspace.cwd
          ((namedSite "../e").options.placeOf emptyWorkspace.cwd name) := by
  obtain ⟨w', hwrite⟩ := exists_write_namedSite "../e" (by decide +kernel)
  obtain ⟨text, hwrites⟩ := exists_writes hwrite (p := .index) List.mem_cons_self
  obtain ⟨commit, rfl⟩ := hwrites.exists_page
  refine ⟨w', _, hwrite, hwrites, "../e.html", ?_, by decide +kernel⟩
  rw [Subject.sidebarTargets_page]
  decide +kernel

end Writer

end Docsmith
