import Docsmith.Proofs.Pages

/-!
# What the data file holds

The data of a site depends on the commit only through the links to sources.  Once the commit is
known it is a value, and after the site has been written the data file holds its text.
-/

namespace Docsmith

/-! ## Data with links -/

mutual
def Var.dataWith (o : Options) (commit : Text) : Var → Value
  | .mk f ms =>
      Writer.record
        [("name", .str f.name), ("type", .str f.kind), ("doc", f.doc),
         ("arglists", .list (f.arglists.map .str)), ("added", f.added),
         ("deprecated", f.deprecated), ("path", f.path), ("line", f.line),
         ("source_uri", .ofText? (linkWith o commit f)), ("meta", .dict f.attrs),
         ("members", .list (membersWith o commit ms))]

def Var.membersWith (o : Options) (commit : Text) : List Var → List Value
  | [] => []
  | v :: vs =>
      if v.facts.noDoc.truthy then membersWith o commit vs
      else v.dataWith o commit :: membersWith o commit vs
end

def Namespace.dataWith (o : Options) (commit : Text) (ns : Namespace) : Value :=
  Writer.record
    [("name", .ofText? ns.name), ("doc", ns.doc), ("added", ns.added),
     ("deprecated", ns.deprecated), ("author", ns.author), ("meta", .dict ns.attrs),
     ("publics", .list (ns.visible.map (Var.dataWith o commit)))]

def Site.dataWith (s : Site) (commit : Text) : Value :=
  Writer.record
    [("project", Writer.record [("name", .ofText? s.options.name),
        ("version", .ofText? s.options.version),
        ("description", .ofText? s.options.description)]),
     ("namespaces", .list (s.visible.map (Namespace.dataWith s.options commit))),
     ("documents", .list (s.documents.map Writer.documentData))]

namespace Writer

open Docsmith.Action

mutual
theorem yields_varData (o : Options) : (v : Var) →
    Yields (varData o v) fun commit => v.dataWith o commit
  | .mk f ms => by
      simp only [varData, Var.dataWith]
      exact (yields_sourceUri o f).bind fun _ => (yields_membersData o ms).bind fun _ =>
        yields_pure _

theorem yields_membersData (o : Options) : (vs : List Var) →
    Yields (membersData o vs) fun commit => Var.membersWith o commit vs
  | [] => yields_pure _
  | v :: vs => by
      simp only [membersData, Var.membersWith]
      split
      · exact yields_membersData o vs
      · exact (yields_varData o v).bind fun _ => (yields_membersData o vs).bind fun _ =>
          yields_pure _
end

theorem yields_varsData (o : Options) (vs : List Var) :
    Yields (varsData o vs) fun commit => vs.map (Var.dataWith o commit) := by
  induction vs with
  | nil => exact yields_pure _
  | cons v vs ih => exact (yields_varData o v).bind fun _ => ih.bind fun _ => yields_pure _

theorem yields_namespaceData (o : Options) (ns : Namespace) :
    Yields (namespaceData o ns) fun commit => ns.dataWith o commit :=
  (yields_varsData o ns.visible).bind fun _ => yields_pure _

theorem yields_namespacesData (o : Options) (nss : List Namespace) :
    Yields (namespacesData o nss) fun commit => nss.map (Namespace.dataWith o commit) := by
  induction nss with
  | nil => exact yields_pure _
  | cons ns nss ih =>
      exact (yields_namespaceData o ns).bind fun _ => ih.bind fun _ => yields_pure _

theorem yields_siteData (s : Site) : Yields (siteData s) s.dataWith :=
  (yields_namespacesData s.options s.visible).bind fun _ => yields_pure _

end Writer

/-! ## The data file -/

def Options.dataPlace (o : Options) (cwd : Path) : List Text :=
  (Path.resolve cwd (o.outputDir.child Writer.dataFile)).names

def Site.Stored (s : Site) (cwd : Path) (commit : Text) (t : FileTree) : Prop :=
  ∃ text bytes, (s.dataWith commit).json = .ok text ∧ Utf8.encode text = .ok bytes ∧
    t.entry? (s.options.dataPlace cwd) = some (.file bytes)

theorem Workspace.commitText_record (w : Workspace) (r : LogRecord) :
    (w.record r).commitText = w.commitText := by
  rw [commitText, commitText, commit_record]

theorem Site.Stored.record {s : Site} {cwd : Path} {w : Workspace}
    (h : s.Stored cwd w.commitText w.tree) (unlogged : ¬w.LogsTo (s.options.dataPlace cwd))
    (r : LogRecord) : s.Stored cwd (w.record r).commitText (w.record r).tree := by
  obtain ⟨text, bytes, htext, hbytes, hentry⟩ := h
  rw [w.commitText_record]
  exact ⟨text, bytes, htext, hbytes, (Workspace.entry?_record unlogged r).trans hentry⟩

namespace Writer

open Docsmith.Action

/-- After the data have been written, their file holds them unless it takes a log. -/
theorem stored_of_writeJson {s : Site} {w w' : Workspace} {a : Unit}
    (h : writeJson s w = (.ok a, w')) (unlogged : ¬w.LogsTo (s.options.dataPlace w.cwd)) :
    s.Stored w.cwd w'.commitText w'.tree := by
  obtain ⟨data, looked, hdata, h⟩ := exists_of_bind h
  obtain ⟨_, made, hmade, h⟩ := exists_of_bind h
  obtain ⟨text, mid, hgiven, h⟩ := exists_of_bind h
  obtain ⟨_, done, hwrite, h⟩ := exists_of_bind h
  obtain rfl := congrArg Prod.snd h
  have hlooks := (yields_siteData s).looks_of_ok hdata
  obtain ⟨tree, -, rfl⟩ := of_change hmade
  obtain ⟨htext, rfl⟩ := eq_of_ofExcept hgiven
  obtain ⟨bytes, tree', hbytes, rfl, hentry, -⟩ := of_writeText hwrite
  dsimp only at hentry
  rw [hlooks.cwd] at hentry
  refine Site.Stored.record ⟨text, bytes, ?_, hbytes, hentry⟩ ?_ _
  · rw [← (yields_siteData s).result hdata]
    · exact htext
    · exact fun _ hv => hv
  · rintro ⟨l, hl, hdestination⟩
    exact unlogged ⟨l, hlooks.logging ▸ hl, hdestination⟩

end Writer

end Docsmith
