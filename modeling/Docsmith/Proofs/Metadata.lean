import Docsmith.Form.Reader
import Docsmith.Proofs.Outcome

/-!
# Metadata of forms

The entries that a form stands for as metadata, said without failure.  Reading them fails
only where a key holds an integer that is too long to be written.
-/

namespace Docsmith

namespace Table

variable {κ ν : Type} [DecidableEq κ]

theorem mem_insert {k : κ} {v : ν} {t : Table κ ν} {e : κ × ν} (h : e ∈ insert k v t) :
    e = (k, v) ∨ e ∈ t := by
  induction t with
  | nil => exact .inl (by simpa [insert] using h)
  | cons first rest ih =>
      by_cases hk : first.1 = k
      · simp only [insert, hk, if_true, List.mem_cons] at h
        rcases h with rfl | h
        · exact .inl rfl
        · exact .inr (by simp [h])
      · simp only [insert, hk, if_false, List.mem_cons] at h
        rcases h with rfl | h
        · exact .inr (by simp)
        · rcases ih h with he | he
          · exact .inl he
          · exact .inr (by simp [he])

theorem mem_update {t u : Table κ ν} {e : κ × ν} (h : e ∈ update t u) : e ∈ t ∨ e ∈ u := by
  induction u generalizing t with
  | nil => exact .inl h
  | cons first rest ih =>
      rcases ih h with h | h
      · rcases mem_insert h with rfl | h
        · exact .inr (by simp)
        · exact .inl h
      · exact .inr (by simp [h])

theorem nodup_insert {k : κ} {v : ν} {t : Table κ ν} (h : (t.map Prod.fst).Nodup) :
    ((insert k v t).map Prod.fst).Nodup := by
  induction t with
  | nil => simp [insert]
  | cons first rest ih =>
      obtain ⟨hfirst, hrest⟩ := List.nodup_cons.1 h
      by_cases hk : first.1 = k
      · subst hk
        simpa only [insert, if_true, List.map_cons] using h
      · simp only [insert, hk, if_false, List.map_cons, List.nodup_cons]
        refine ⟨?_, ih hrest⟩
        intro hmem
        obtain ⟨e, he, heq⟩ := List.mem_map.1 hmem
        rcases mem_insert he with rfl | he
        · exact hk heq.symm
        · exact hfirst (List.mem_map.2 ⟨e, he, heq⟩)

theorem nodup_update {t : Table κ ν} (h : (t.map Prod.fst).Nodup) (u : Table κ ν) :
    ((update t u).map Prod.fst).Nodup := by
  induction u generalizing t with
  | nil => exact h
  | cons first rest ih => exact ih (nodup_insert h)

end Table

namespace Form

def entryName : Form → Text
  | .keyword name => name
  | key => key.label

/-- The metadata that a form stands for, each name with the last of its values. -/
def entries : Form → Attrs
  | .keyword name => [(name, .bool true)]
  | .symbol name _ => [("tag", .str name)]
  | .str s => [("tag", .str s)]
  | .coll .map _ items => Table.ofList ((pairs items).map fun e => (e.1.entryName, e.2))
  | _ => []

/-! ## Labels -/

theorem labelableItems_iff (items : List Form) :
    labelableItems items = true ↔ ∀ f ∈ items, f.labelable = true := by
  induction items with
  | nil => simp [labelableItems]
  | cons f fs ih => simp [labelableItems, ih]

theorem labelableAttrs_iff (attrs : List (Text × Form)) :
    labelableAttrs attrs = true ↔ ∀ e ∈ attrs, e.2.labelable = true := by
  induction attrs with
  | nil => simp [labelableAttrs]
  | cons e r ih => simp [labelableAttrs, ih]

theorem labelable_symbol_iff (name : Text) (attrs : List (Text × Form)) :
    (Form.symbol name attrs).labelable = true ↔ ∀ e ∈ attrs, e.2.labelable = true := by
  rw [labelable, labelableAttrs_iff]

theorem labelable_coll_iff (shape : Shape) (line : Nat) (items : List Form) :
    (Form.coll shape line items).labelable = true ↔ ∀ f ∈ items, f.labelable = true := by
  rw [labelable, labelableItems_iff]

theorem mem_of_mem_pairs {items : List Form} {e : Form × Form} (h : e ∈ pairs items) :
    e.1 ∈ items ∧ e.2 ∈ items := by
  fun_induction pairs items with
  | case1 k v r ih =>
      rcases List.mem_cons.1 h with rfl | h
      · simp
      · simp [ih h]
  | case2 => simp at h

/-! ## Entries -/

theorem entryName_of_attrName {key : Form} {name : Text} (h : attrName key = .ok name) :
    key.entryName = name := by
  cases key with
  | keyword => simpa [attrName, entryName] using h
  | symbol => simpa [attrName, entryName, label?, label] using h
  | _ =>
      simp only [attrName, label?] at h
      split at h <;> simp_all [entryName]

def nameable : Form → Bool
  | .symbol _ _ => true
  | key => key.labelable

theorem nameable_of_labelable {key : Form} (h : key.labelable = true) : key.nameable = true := by
  cases key <;> simp_all [nameable]

theorem attrName_of_nameable {key : Form} (h : key.nameable = true) :
    attrName key = .ok key.entryName := by
  cases key <;> simp_all [attrName, entryName, nameable, label?, label]

theorem attrName_of_not_nameable {key : Form} (h : key.nameable = false) :
    attrName key = .error .integerTooLongToWrite := by
  cases key <;> simp_all [attrName, nameable, labelable, label?]

theorem update_of_attrsOfPairs {ps : List (Form × Form)} {acc attrs : Attrs}
    (h : attrsOfPairs ps acc = .ok attrs) :
    attrs = Table.update acc (ps.map fun e => (e.1.entryName, e.2)) := by
  induction ps generalizing acc with
  | nil => simpa [attrsOfPairs, Table.update, eq_comm] using h
  | cons e ps ih =>
      obtain ⟨key, value⟩ := e
      obtain ⟨name, hn, h⟩ := exists_of_bind_eq_ok h
      rw [ih h, ← entryName_of_attrName hn]
      rfl

theorem attrsOfPairs_of_nameable {ps : List (Form × Form)}
    (h : ∀ e ∈ ps, e.1.nameable = true) (acc : Attrs) :
    attrsOfPairs ps acc = .ok (Table.update acc (ps.map fun e => (e.1.entryName, e.2))) := by
  induction ps generalizing acc with
  | nil => simp [attrsOfPairs, Table.update]
  | cons e ps ih =>
      have hkey := attrName_of_nameable (h e (by simp))
      have hrest := ih (fun e he => h e (by simp [he])) (acc.insert e.1.entryName e.2)
      simp only [attrsOfPairs, hkey, bind, Except.bind, hrest]
      rfl

theorem attrsOfPairs_of_not_nameable {ps : List (Form × Form)}
    (h : ¬∀ e ∈ ps, e.1.nameable = true) (acc : Attrs) :
    attrsOfPairs ps acc = .error .integerTooLongToWrite := by
  induction ps generalizing acc with
  | nil => simp at h
  | cons e ps ih =>
      cases hkey : e.1.nameable with
      | false => simp only [attrsOfPairs, attrName_of_not_nameable hkey, bind, Except.bind]
      | true =>
          have hrest : ¬∀ e ∈ ps, e.1.nameable = true := fun hps =>
            h (List.forall_mem_cons.2 ⟨hkey, hps⟩)
          simp only [attrsOfPairs, attrName_of_nameable hkey, bind, Except.bind, ih hrest]

theorem eq_entries_of_toAttrs {f : Form} {attrs : Attrs} (h : f.toAttrs = .ok attrs) :
    attrs = f.entries := by
  cases f with
  | coll shape line items =>
      cases shape with
      | map => exact update_of_attrsOfPairs h
      | _ => simpa [toAttrs, entries, eq_comm] using h
  | _ => simpa [toAttrs, entries, eq_comm] using h

theorem toAttrs_of_labelable {f : Form} (h : f.labelable = true) :
    f.toAttrs = .ok f.entries := by
  cases f with
  | coll shape line items =>
      cases shape with
      | map =>
          rw [labelable_coll_iff] at h
          exact attrsOfPairs_of_nameable
            (fun e he => nameable_of_labelable (h _ (mem_of_mem_pairs he).1)) []
      | _ => rfl
  | _ => rfl

theorem mem_entries {f : Form} {e : Text × Form} (h : e ∈ f.entries) :
    e.2 = .bool true ∨ (∃ s, e.2 = .str s) ∨
      ∃ line items, f = .coll .map line items ∧ e.2 ∈ items := by
  cases f with
  | keyword name =>
      obtain rfl := List.mem_singleton.1 h
      exact .inl rfl
  | symbol name _ =>
      obtain rfl := List.mem_singleton.1 h
      exact .inr (.inl ⟨_, rfl⟩)
  | str s =>
      obtain rfl := List.mem_singleton.1 h
      exact .inr (.inl ⟨_, rfl⟩)
  | coll shape line items =>
      cases shape with
      | map =>
          rcases Table.mem_update h with h | h
          · simp at h
          · obtain ⟨p, hp, rfl⟩ := List.mem_map.1 h
            exact .inr (.inr ⟨line, items, rfl, (mem_of_mem_pairs hp).2⟩)
      | _ => simp [entries] at h
  | _ => simp [entries] at h

theorem labelable_annotate {m f : Form} (hm : m.labelable = true) (hf : f.labelable = true) :
    (f.annotate m.entries).labelable = true := by
  cases f with
  | symbol name own =>
      rw [labelable_symbol_iff] at hf
      rw [annotate, labelable_symbol_iff]
      intro e he
      rcases Table.mem_update he with he | he
      · exact hf e he
      · rcases mem_entries he with h | ⟨s, h⟩ | ⟨line, items, rfl, h⟩
        · simp [h, labelable]
        · simp [h, labelable]
        · exact (labelable_coll_iff _ _ _).1 hm _ h
  | _ => exact hf

end Form

end Docsmith
