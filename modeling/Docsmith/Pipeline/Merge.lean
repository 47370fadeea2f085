import Docsmith.Model.Basic

/-!
# Merging namespaces

Records of one name become one.  The first of them gives every field but the public
variables, which are those of all records in turn.
-/

namespace Docsmith

def mergeInto (ns : Namespace) : List Namespace → List Namespace
  | [] => [ns]
  | m :: ms =>
      if m.name = ns.name then { m with publics := m.publics ++ ns.publics } :: ms
      else m :: mergeInto ns ms

def mergeNamespaces (nss : List Namespace) : List Namespace :=
  nss.foldl (fun groups ns => mergeInto ns groups) []

end Docsmith
