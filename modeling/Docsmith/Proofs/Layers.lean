import Docsmith.Proofs.Dictionaries
import Docsmith.Proofs.Sections

/-!
# Sections over sections

The options of a dependency file come from several sections, each written over those before it.
They are written under their keys as they stand there, and are put into the normal spelling only
after that.  So of the spellings of an option that one counts which came in last, with the value
that it got last.  This is what the last section with the option says, if it spells it so too.
-/

namespace Docsmith

/-! ## What entries come to -/

namespace Dict

def firstKeys (keys : List Value) : List Value :=
  keys.foldl (fun seen k => if seen.any (·.sameKey k) then seen else seen ++ [k]) []

def last? (entries : Dict) (key : Value) : Option Value :=
  (entries.reverse.find? fun e => e.1.sameKey key).map Prod.snd

/-- Of the spellings of a normal key, the one that came in last. -/
def newest? (entries : Dict) (key : Text) : Option Value :=
  (firstKeys (entries.map Prod.fst)).reverse.find? fun k => normalKey k = key

variable {entries : Dict} {key : Text}

theorem firstKeys_concat (keys : List Value) (k : Value) :
    firstKeys (keys ++ [k]) =
      if (firstKeys keys).any (·.sameKey k) then firstKeys keys else firstKeys keys ++ [k] := by
  unfold firstKeys
  rw [List.foldl_append]
  rfl

theorem firstKeys_subset (keys : List Value) : firstKeys keys ⊆ keys := by
  induction keys using List.reverseRecOn with
  | nil => exact List.Subset.refl _
  | append_singleton keys k ih =>
      rw [firstKeys_concat]
      split
      · exact fun _ h => List.mem_append_left _ (ih h)
      · exact List.append_subset.2 ⟨fun _ h => List.mem_append_left _ (ih h),
          List.subset_append_right _ _⟩

theorem exists_mem_firstKeys {keys : List Value} {k : Value} (h : k ∈ keys)
    (self : k.sameKey k = true) : ∃ k' ∈ firstKeys keys, k'.sameKey k = true := by
  induction keys using List.reverseRecOn with
  | nil => cases h
  | append_singleton keys last ih =>
      rw [firstKeys_concat]
      rcases List.mem_append.1 h with h | h
      · obtain ⟨k', hk', hsame⟩ := ih h
        refine ⟨k', ?_, hsame⟩
        split
        · exact hk'
        · exact List.mem_append_left _ hk'
      · obtain rfl := List.mem_singleton.1 h
        split
        case isTrue hany => exact List.any_eq_true.1 hany
        case isFalse => exact ⟨k, by simp, self⟩

theorem ofEntries_concat (entries : Dict) (e : Value × Value) :
    ofEntries (entries ++ [e]) = insert e.1 e.2 (ofEntries entries) := by
  simp only [ofEntries, update, List.foldl_append, List.foldl_cons, List.foldl_nil]

theorem keys_insert_eq (key value : Value) (d : Dict) :
    (insert key value d).map Prod.fst =
      if (d.map Prod.fst).any (·.sameKey key) then d.map Prod.fst
      else d.map Prod.fst ++ [key] := by
  rcases absent_or_present key d with h | ⟨before, k, old, after, rfl, hbefore, hk⟩
  · have hnone : (d.map Prod.fst).any (·.sameKey key) = false := by simpa using h
    rw [insert_of_absent h, hnone]
    simp
  · rw [insert_of_present hbefore hk]
    simp [hk]

theorem keys_ofEntries (entries : Dict) :
    (ofEntries entries).map Prod.fst = firstKeys (entries.map Prod.fst) := by
  induction entries using List.reverseRecOn with
  | nil => rfl
  | append_singleton entries e ih =>
      rw [ofEntries_concat, keys_insert_eq, ih, List.map_append, List.map_singleton,
        firstKeys_concat]

theorem last?_of_mem_ofEntries {k v : Value} (h : (k, v) ∈ ofEntries entries)
    (self : k.sameKey k = true) : last? entries k = some v := by
  induction entries using List.reverseRecOn with
  | nil => cases h
  | append_singleton entries e ih =>
      have hdistinct : Distinct (ofEntries entries) := Distinct.update .nil entries
      rw [ofEntries_concat] at h
      rw [last?, List.reverse_append, List.reverse_singleton, List.singleton_append,
        List.find?_cons]
      rcases hdistinct.mem_insert h with ⟨rfl, hsame⟩ | ⟨hmem, hother⟩
      · have hsame : e.1.sameKey k = true := by
          rcases hsame with rfl | hsame
          · exact self
          · exact Value.sameKey_symm hsame
        simp [hsame]
      · have hother : e.1.sameKey k = false :=
          Bool.eq_false_iff.2 fun hsame => Bool.eq_false_iff.1 hother (Value.sameKey_symm hsame)
        rw [hother]
        exact ih hmem

theorem newest?_eq (entries : Dict) (key : Text) :
    newest? entries key =
      ((ofEntries entries).reverse.find? fun e => normalKey e.1 = key).map Prod.fst := by
  rw [newest?, ← keys_ofEntries, ← List.map_reverse, List.find?_map]
  rfl

theorem spelled?_ofEntries_of_newest {k : Value} (h : newest? entries key = some k)
    (self : k.sameKey k = true) : spelled? (ofEntries entries) key = last? entries k := by
  rw [newest?_eq] at h
  obtain ⟨⟨k', v⟩, hfind, rfl⟩ := Option.map_eq_some_iff.1 h
  rw [spelled?, hfind]
  exact (last?_of_mem_ofEntries (List.mem_reverse.1 (List.mem_of_find?_eq_some hfind)) self).symm

theorem spelled?_ofEntries_of_none (h : newest? entries key = none) :
    spelled? (ofEntries entries) key = none := by
  rw [newest?_eq, Option.map_eq_none_iff] at h
  rw [spelled?, h]
  rfl

theorem spelled?_append (d d' : Dict) (key : Text) :
    spelled? (d ++ d') key = (spelled? d' key).or (spelled? d key) := by
  rw [spelled?, List.reverse_append, List.find?_append, Option.map_or]
  rfl

/-- The last entry that spells the normal key has the newest spelling, and what is the same key
is a spelling too. -/
structure Undisputed (entries : Dict) (key : Text) : Prop where
  alike : ∀ e ∈ entries, ∀ e' ∈ entries, e.1.sameKey e'.1 = true →
    normalKey e.1 = key → normalKey e'.1 = key
  newest : ∀ e, entries.reverse.find? (fun e => normalKey e.1 = key) = some e →
    ∃ k, newest? entries key = some k ∧ k.sameKey e.1 = true

theorem undisputed_of_one_spelling (h : ∀ e ∈ entries, ∀ e' ∈ entries, normalKey e.1 = key →
    (normalKey e'.1 = key ↔ e.1.sameKey e'.1 = true)) : Undisputed entries key where
  alike e he e' he' hsame hkey := (h e he e' he' hkey).2 hsame
  newest e hfind := by
    have he := List.mem_reverse.1 (List.mem_of_find?_eq_some hfind)
    have hkey : normalKey e.1 = key := by simpa using List.find?_some hfind
    obtain ⟨k, hk, hsame⟩ := exists_mem_firstKeys (List.mem_map_of_mem he)
      ((h e he e he hkey).1 hkey)
    obtain ⟨first, hfirst, rfl⟩ := List.mem_map.1 (firstKeys_subset _ hk)
    cases hnewest : newest? entries key with
    | none =>
        have hnone := List.find?_eq_none.1 hnewest first.1 (List.mem_reverse.2 hk)
        have hspelled := (h e he first hfirst hkey).2 (Value.sameKey_symm hsame)
        simp [hspelled] at hnone
    | some k =>
        have hmem := firstKeys_subset _ (List.mem_reverse.1 (List.mem_of_find?_eq_some hnewest))
        obtain ⟨last, hlast, rfl⟩ := List.mem_map.1 hmem
        have hspelled : normalKey last.1 = key := by simpa using List.find?_some hnewest
        exact ⟨last.1, rfl, Value.sameKey_symm ((h e he last hlast hkey).1 hspelled)⟩

theorem spelled?_ofEntries_of_undisputed (h : Undisputed entries key) :
    spelled? (ofEntries entries) key = spelled? entries key := by
  cases hfind : entries.reverse.find? fun e => normalKey e.1 = key with
  | none =>
      have hnone : newest? entries key = none := by
        rw [newest?, List.find?_eq_none]
        intro k hk
        obtain ⟨e, he, rfl⟩ := List.mem_map.1 (firstKeys_subset _ (List.mem_reverse.1 hk))
        exact List.find?_eq_none.1 hfind e (List.mem_reverse.2 he)
      rw [spelled?_ofEntries_of_none hnone, spelled?, hfind]
      rfl
  | some e =>
      obtain ⟨k, hnewest, hsame⟩ := h.newest e hfind
      have self := Value.sameKey_trans hsame (Value.sameKey_symm hsame)
      obtain ⟨hkey, later, earlier, hsplit, hlater⟩ := List.find?_eq_some_iff_append.1 hfind
      have hmem (e' : Value × Value) (he' : e' ∈ later ++ e :: earlier) : e' ∈ entries :=
        List.mem_reverse.1 (hsplit ▸ he')
      have hothers : ∀ e' ∈ later, ¬e'.1.sameKey k = true := by
        intro e' he' hsame'
        have hkey' := h.alike e (hmem e (by simp)) e' (hmem e' (by simp [he']))
          (Value.sameKey_symm (Value.sameKey_trans hsame' hsame)) (by simpa using hkey)
        simpa [hkey'] using hlater e' he'
      have hlast : last? entries k = some e.2 := by
        rw [last?, hsplit, List.find?_append, List.find?_eq_none.2 hothers, Option.none_or,
          List.find?_cons, Value.sameKey_symm hsame]
        rfl
      rw [spelled?_ofEntries_of_newest hnewest self, hlast, spelled?, hfind]
      rfl

end Dict

/-! ## The dependency file -/

namespace ProjectFile

/-- The entries of the sections at all paths, one section after the other. -/
def entriesAt (data : Value) (paths : List (List Value)) : Dict := paths.flatMap (sectionAt data)

theorem sectionsOver_eq (data : Value) (paths : List (List Value)) (merged : Dict) :
    sectionsOver data paths merged = Dict.update merged (entriesAt data paths) := by
  induction paths generalizing merged with
  | nil => rfl
  | cons keys paths ih =>
      have hstep : entriesAt data (keys :: paths) = sectionAt data keys ++ entriesAt data paths :=
        List.flatMap_cons
      rw [hstep, Dict.update, List.foldl_append]
      exact ih _

theorem spelled?_entriesAt (data : Value) (paths : List (List Value)) (key : Text) :
    Dict.spelled? (entriesAt data paths) key =
      paths.reverse.findSome? fun keys => Dict.spelled? (sectionAt data keys) key := by
  induction paths with
  | nil => rfl
  | cons keys paths ih =>
      rw [entriesAt, List.flatMap_cons, ← entriesAt, Dict.spelled?_append, ih, List.reverse_cons,
        List.findSome?_append]
      simp

variable {w : Workspace} {p : Path} {line : Nat} {items rest : List Form} {data : Value}

theorem dependencyOptions_eq (holds : Holds w p (.coll .map line items :: rest))
    (value : (Form.coll .map line items).toValue = .ok data) (paths : List (List Value)) :
    dependencyOptions p (.list (paths.map .list)) w = (do
      let merged ← sections p data (paths.map .list) []
      Action.ofExcept (OptionTable.ofValue (.dict merged))) w := by
  have hforms : forms p w = (.ok (.coll .map line items :: rest), w) :=
    Prod.ext (forms_eq_ok_iff.2 holds) (still_forms p w)
  have hdata : valueOf p (.coll .map line items) w = (.ok data, w) :=
    Prod.ext (valueOf_eq_ok_iff.2 value) (still_valueOf p _ w)
  rw [dependencyOptions, Action.bind_apply, hforms]
  dsimp only
  rw [Action.bind_apply, hdata]
  dsimp only
  cases paths with
  | nil => rfl
  | cons keys paths =>
      have hgiven : (Value.list ((keys :: paths).map .list)).truthy = true := rfl
      have hpaths : Action.ofExcept (itemsOf (.list ((keys :: paths).map .list))) w =
          (.ok ((keys :: paths).map .list), w) := rfl
      rw [if_pos hgiven, Action.bind_apply, hpaths]

theorem dependencyOptions_fst (holds : Holds w p (.coll .map line items :: rest))
    (value : (Form.coll .map line items).toValue = .ok data) {paths : List (List Value)}
    (unblocked : ∀ keys ∈ paths, blocked data keys = false) :
    (dependencyOptions p (.list (paths.map .list)) w).1 =
      OptionTable.ofValue (.dict (Dict.ofEntries (entriesAt data paths))) := by
  obtain ⟨last, hsections⟩ := exists_sections_eq p unblocked [] w
  rw [sectionsOver_eq] at hsections
  rw [dependencyOptions_eq holds value, Action.bind_apply, hsections]
  rfl

theorem dependencyOptions_fst_of_blocked (holds : Holds w p (.coll .map line items :: rest))
    (value : (Form.coll .map line items).toValue = .ok data) {paths : List (List Value)}
    {keys : List Value} (mem : keys ∈ paths) (h : blocked data keys = true) :
    (dependencyOptions p (.list (paths.map .list)) w).1 = .error (.value .integerTooLong) := by
  obtain ⟨last, hsections⟩ := exists_sections_eq_error p mem h [] w
  rw [dependencyOptions_eq holds value, Action.bind_apply, hsections]

/-- A dependency file gives options if the keys that are looked up on the way to its sections and
those that come out of them can be written.  An option is then the last value of its newest
spelling, and it is what the last section with the option says, by its last spelling there, if
this spelling is not disputed. -/
theorem dependencyOptions_by_section (holds : Holds w p (.coll .map line items :: rest))
    (value : (Form.coll .map line items).toValue = .ok data) (paths : List (List Value)) :
    ((∃ t, (dependencyOptions p (.list (paths.map .list)) w).1 = .ok t) ↔
      (∀ keys ∈ paths, blocked data keys = false) ∧
        ∀ k ∈ Dict.firstKeys ((entriesAt data paths).map Prod.fst), k.writable = true) ∧
    ∀ t, (dependencyOptions p (.list (paths.map .list)) w).1 = .ok t → t.Normal ∧ ∀ key,
      (∀ k, Dict.newest? (entriesAt data paths) key = some k → k.sameKey k = true →
        t.get? key = Dict.last? (entriesAt data paths) k) ∧
      (Dict.newest? (entriesAt data paths) key = none → t.get? key = none) ∧
      (Dict.Undisputed (entriesAt data paths) key →
        t.get? key = paths.reverse.findSome? fun keys => Dict.spelled? (sectionAt data keys) key) := by
  by_cases unblocked : ∀ keys ∈ paths, blocked data keys = false
  case neg =>
    obtain ⟨keys, mem, hblocked⟩ : ∃ keys ∈ paths, blocked data keys = true := by
      simpa using unblocked
    rw [dependencyOptions_fst_of_blocked holds value mem hblocked]
    refine ⟨iff_of_false ?_ fun h => unblocked h.1, ?_⟩
    · rintro ⟨t, ht⟩
      cases ht
    · intro t ht
      cases ht
  rw [dependencyOptions_fst holds value unblocked]
  simp only [OptionTable.ofValue_dict_eq_ok_iff, ← Dict.keys_ofEntries, List.forall_mem_map]
  constructor
  · constructor
    · rintro ⟨t, writable, -⟩
      exact ⟨unblocked, writable⟩
    · rintro ⟨-, writable⟩
      exact ⟨_, writable, rfl⟩
  · rintro t ⟨-, rfl⟩
    refine ⟨OptionTable.normal_normalize _, fun key => ?_⟩
    rw [OptionTable.get?_normalize]
    refine ⟨fun k => Dict.spelled?_ofEntries_of_newest, Dict.spelled?_ofEntries_of_none, ?_⟩
    intro undisputed
    rw [Dict.spelled?_ofEntries_of_undisputed undisputed, spelled?_entriesAt]

def layeredText : Text :=
  "\x7b:a \x7b:output-path \"x\"\x7d :b \x7b:output_path \"y\"\x7d :c \x7b:output-path \"z\"\x7d\x7d"

def layeredItems : List Form :=
  [.keyword "a", .coll .map 1 [.keyword "output-path", .str "x"],
   .keyword "b", .coll .map 1 [.keyword "output_path", .str "y"],
   .keyword "c", .coll .map 1 [.keyword "output-path", .str "z"]]

def layeredData : Value :=
  .dict [(.str "a", .dict [(.str "output-path", .str "x")]),
    (.str "b", .dict [(.str "output_path", .str "y")]),
    (.str "c", .dict [(.str "output-path", .str "z")])]

def layered : Workspace :=
  { cwd := ⟨true, []⟩,
    tree := ⟨[(["deps.edn"], .file (layeredText.map fun c => c.toNat.toUInt8))]⟩ }

theorem holds_layered : Holds layered ⟨true, ["deps.edn"]⟩ [.coll .map 1 layeredItems] := by
  have hread : layered.tree.readText layered.cwd ⟨true, ["deps.edn"]⟩ = .ok layeredText := by
    decide +kernel
  let entry (key option value : Text) : List Token :=
    [⟨.atom key, 1⟩, ⟨.opener .brace, 1⟩, ⟨.atom option, 1⟩, ⟨.str value, 1⟩, ⟨.closer .brace, 1⟩]
  have htokens : Token.tokenize layeredText = .ok (⟨.opener .brace, 1⟩ ::
      (entry ":a" ":output-path" "x" ++ entry ":b" ":output_path" "y" ++
        entry ":c" ":output-path" "z" ++ [⟨.closer .brace, 1⟩])) := by decide +kernel
  refine ⟨layeredText, hread, ?_⟩
  rw [Form.readAll, htokens]
  rfl

theorem toValue_layered : (Form.coll .map 1 layeredItems).toValue = .ok layeredData := rfl

/-- Where only one spelling is used, the last section decides. -/
theorem dependencyOptions_by_section_layered :
    ∃ t, (dependencyOptions ⟨true, ["deps.edn"]⟩
        (.list ([[.str ":a"], [.str "c"], [.str "d"]].map .list)) layered).1 = .ok t ∧
      t.get? "output_path" = some (.str "z") ∧ t.get? "name" = none := by
  obtain ⟨hreturns, hoptions⟩ := dependencyOptions_by_section holds_layered toValue_layered
    [[.str ":a"], [.str "c"], [.str "d"]]
  obtain ⟨t, ht⟩ := hreturns.2 (by decide)
  obtain ⟨-, hoption⟩ := hoptions t ht
  refine ⟨t, ht, ?_, (hoption "name").2.1 rfl⟩
  rw [(hoption "output_path").2.2 (Dict.undisputed_of_one_spelling (by decide))]
  rfl

/-- The last section does not decide, since its spelling is not the newest. -/
theorem last_section_ignored :
    (∃ t, (dependencyOptions ⟨true, ["deps.edn"]⟩
        (.list ([[.str "a"], [.str "b"], [.str "c"]].map .list)) layered).1 = .ok t ∧
      t.get? "output_path" = some (.str "y")) ∧
    ([[.str "a"], [.str "b"], [.str "c"]].reverse.findSome? fun keys =>
      Dict.spelled? (sectionAt layeredData keys) "output_path") = some (.str "z") := by
  rw [dependencyOptions_fst holds_layered toValue_layered (by decide)]
  exact ⟨⟨_, rfl, rfl⟩, rfl⟩

end ProjectFile

end Docsmith
