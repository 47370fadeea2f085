import Docsmith.Output.Markup
import Docsmith.Output.Site

/-!
# Pages

The index, one page for each namespace, and one for each document.  Every page has the
same sidebar, with a link to each of them.
-/

namespace Docsmith

def namespaceFile (name : Option Text) : Text := name.getD "None" ++ ".html"

def documentFile (name : Text) : Text := Text.replaceAll "/" "-" name ++ ".html"

/-- The title of a document; one without a title shows as `None`. -/
def Document.label (d : Document) : Text := d.title.getD "None"

structure Frame where
  name : Text
  version : Text
  description : Text
  namespaces : List Namespace
  documents : List Document

def Site.frame (s : Site) : Frame :=
  let given := s.options.name.getD []
  { name := if given.isEmpty then s.options.root.name else given
    version := s.options.version.getD []
    description := s.options.description.getD []
    namespaces := s.visible
    documents := s.documents }

structure PageEntry where
  var : Var
  uri : Option Text

namespace Page

open Markup

def link (target label : Text) : Markup :=
  lit "<a href=\"" ++ word target ++ lit "\">" ++ word label ++ lit "</a>"

def docText (doc : Value) : Markup :=
  ifTrue doc fun v => lit "<pre class=\"doc\">" ++ field v ++ lit "</pre>"

def addedText (added : Value) : Markup :=
  ifTrue added fun v => lit "<p class=\"added\">added in " ++ field v ++ lit "</p>"

def deprecatedText (deprecated : Value) : Markup :=
  ifTrue deprecated fun v =>
    lit "<p class=\"deprecated\">deprecated"
      ++ given (!v.isText "true") (lit " in " ++ field v) ++ lit "</p>"

def topics (documents : List Document) : Markup :=
  given (!documents.isEmpty)
    (lit "  <h4>Topics</h4>\n  <ul>\n"
      ++ documents.flatMap (fun d =>
        lit "    <li>" ++ link (documentFile d.name) d.label ++ lit "</li>\n")
      ++ lit "  </ul>\n")

def namespaceList (namespaces : List Namespace) : Markup :=
  lit "  <h4>Namespaces</h4>\n  <ul>\n"
    ++ namespaces.flatMap (fun ns =>
      lit "    <li>" ++ link (namespaceFile ns.name) ns.label ++ lit "</li>\n")
    ++ lit "  </ul>\n"

def sidebar (f : Frame) : Markup :=
  lit "<nav id=\"sidebar\">\n  <h3><a href=\"index.html\">" ++ word f.name ++ lit "</a></h3>\n"
    ++ topics f.documents ++ namespaceList f.namespaces ++ lit "</nav>\n"

def layout (f : Frame) (title content : Markup) : Markup :=
  lit "<!DOCTYPE html>\n<html>\n<head>\n<meta charset=\"utf-8\">\n<title>" ++ title
    ++ lit "</title>\n</head>\n<body>\n" ++ sidebar f ++ lit "<main id=\"content\">\n" ++ content
    ++ lit "</main>\n</body>\n</html>"

/-! ## Index -/

def indexEntry (ns : Namespace) : Markup :=
  lit "<div class=\"namespace\">\n  <h3>" ++ link (namespaceFile ns.name) ns.label
    ++ lit "</h3>\n" ++ docText ns.doc ++ lit "</div>\n"

def index (f : Frame) : Markup :=
  let version := given (!f.version.isEmpty)
  layout f (word f.name ++ version (lit " " ++ word f.version))
    (lit "<h1>" ++ word f.name
      ++ version (lit " <span class=\"version\">" ++ word f.version ++ lit "</span>")
      ++ lit "</h1>\n"
      ++ given (!f.description.isEmpty)
        (lit "<p class=\"description\">" ++ word f.description ++ lit "</p>")
      ++ f.namespaces.flatMap indexEntry)

/-! ## Namespaces -/

def parameters (arglist : Text) : Text := (arglist.drop 1).dropLast

def usage (name : Text) (arglists : List Text) : Markup :=
  given (!arglists.isEmpty)
    (lit "  <div class=\"usage\">\n"
      ++ arglists.flatMap (fun (a : Text) =>
        lit "    <code>(" ++ word name ++ given (a ≠ "[]") (lit " " ++ word (parameters a))
          ++ lit ")</code>\n")
      ++ lit "  </div>\n")

def member (m : Var) : Markup :=
  lit "    <div class=\"member\">\n      <h4>" ++ word m.name ++ lit "</h4>\n"
    ++ m.facts.arglists.flatMap (fun (a : Text) =>
      lit "<code>(" ++ word m.name ++ lit " " ++ word (parameters a) ++ lit ")</code>")
    ++ docText m.facts.doc ++ lit "    </div>\n"

def members (v : Var) : Markup :=
  given (!v.members.isEmpty)
    (lit "  <div class=\"members\">\n" ++ v.visibleMembers.flatMap member ++ lit "  </div>\n")

def sourceLink (uri : Option Text) : Markup :=
  let uri := uri.getD []
  given (!uri.isEmpty)
    (lit "<div class=\"src-link\">" ++ link uri "view source" ++ lit "</div>")

def entry (e : PageEntry) : Markup :=
  let f := e.var.facts
  lit "<div class=\"public\" id=\"var-" ++ word f.name ++ lit "\">\n  <h3>" ++ word f.name
    ++ lit "</h3>\n"
    ++ given (f.kind ≠ "var") (lit "<span class=\"type\">" ++ word f.kind ++ lit "</span>")
    ++ addedText f.added ++ deprecatedText f.deprecated ++ usage f.name f.arglists
    ++ docText f.doc ++ members e.var ++ sourceLink e.uri ++ lit "</div>\n"

def ofNamespace (f : Frame) (ns : Namespace) (entries : List PageEntry) : Markup :=
  layout f (word ns.label ++ lit " documentation")
    (lit "<h1>" ++ word ns.label ++ lit "</h1>\n" ++ addedText ns.added
      ++ deprecatedText ns.deprecated ++ docText ns.doc ++ entries.flatMap entry)

/-! ## Documents -/

def ofDocument (f : Frame) (d : Document) : Markup :=
  layout f (word d.label)
    (lit "<div class=\"document\" id=\"doc-" ++ word d.name ++ lit "\">\n  <pre class=\""
      ++ word d.format ++ lit "\">" ++ word d.content ++ lit "</pre>\n</div>\n")

end Page

end Docsmith
