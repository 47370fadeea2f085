import Docsmith.Options.Project
import Docsmith.Proofs.Stacking

/-!
# Property lists

The properties of a project are keywords and their values in turn.  They are read form by form:
behind a wanted keyword stands its value, and any other form is passed over by itself.  So the
forms are paired as they are meant until a keyword that is not wanted has a wanted one as its
value, which is then taken for a key, with the next key as its value.
-/

namespace Docsmith.Form

/-- Keywords and their values in turn, and behind them a keyword without a value or nothing. -/
def propertyList (properties : List (Text × Form)) (trailing : Option Text) : List Form :=
  properties.flatMap (fun e => [.keyword e.1, e.2]) ++ (trailing.map Form.keyword).toList

def lastValue? (name : Text) (properties : List (Text × Form)) : Option Form :=
  (properties.filter fun e => e.1 = name).getLast?.map Prod.snd

/-- The property is not wanted, and its value could be the key of one that is. -/
def Misleads (wanted : List Text) (e : Text × Form) : Prop :=
  e.1 ∉ wanted ∧ ∃ name ∈ wanted, e.2 = .keyword name

/-- The properties whose values are not the last form of the list. -/
def followed (properties : List (Text × Form)) (trailing : Option Text) : List (Text × Form) :=
  if trailing.isSome then properties else properties.dropLast

variable {wanted : List Text} {trailing : Option Text}

@[simp] theorem propertyList_nil (trailing : Option Text) :
    propertyList [] trailing = (trailing.map Form.keyword).toList := rfl

@[simp] theorem propertyList_cons (e : Text × Form) (rest : List (Text × Form))
    (trailing : Option Text) :
    propertyList (e :: rest) trailing = .keyword e.1 :: e.2 :: propertyList rest trailing := rfl

/-! ## One step -/

theorem findVals_wanted {name : Text} (h : name ∈ wanted) (value : Form) (rest : List Form)
    (found : Attrs) :
    findVals wanted (.keyword name :: value :: rest) found =
      findVals wanted rest (found.insert name value) := by
  rw [findVals, if_pos (List.contains_iff_mem.2 h)]

theorem findVals_unwanted {name : Text} (h : name ∉ wanted) (rest : List Form) (found : Attrs) :
    findVals wanted (.keyword name :: rest) found = findVals wanted rest found := by
  cases rest with
  | nil => rfl
  | cons value rest => rw [findVals, if_neg (mt List.contains_iff_mem.1 h)]

/-- A form that cannot be a wanted key is passed over, and so is the last form. -/
theorem findVals_skip {f : Form} {rest : List Form}
    (h : rest = [] ∨ ∀ name ∈ wanted, f ≠ .keyword name) (found : Attrs) :
    findVals wanted (f :: rest) found = findVals wanted rest found := by
  cases f with
  | keyword name =>
      rcases h with rfl | h
      · rfl
      · exact findVals_unwanted (fun hmem => h name hmem rfl) rest found
  | _ => rfl

/-! ## Pair by pair -/

theorem propertyList_append (before after : List (Text × Form)) (trailing : Option Text) :
    propertyList (before ++ after) trailing =
      propertyList before none ++ propertyList after trailing := by
  simp [propertyList]

theorem findVals_append {before : List (Text × Form)} (h : ∀ e ∈ before, ¬Misleads wanted e)
    (rest : List Form) (found : Attrs) :
    findVals wanted (propertyList before none ++ rest) found =
      findVals wanted rest (Table.update found (before.filter fun e => e.1 ∈ wanted)) := by
  induction before generalizing found with
  | nil => rfl
  | cons e before ih =>
      obtain ⟨hfirst, hbefore⟩ := List.forall_mem_cons.1 h
      rw [propertyList_cons, List.cons_append, List.cons_append]
      by_cases he : e.1 ∈ wanted
      · rw [findVals_wanted he, ih hbefore, List.filter_cons_of_pos (by simpa using he)]
        rfl
      · have hvalue : ∀ name ∈ wanted, e.2 ≠ .keyword name :=
          fun name hmem heq => hfirst ⟨he, name, hmem, heq⟩
        rw [findVals_unwanted he, findVals_skip (.inr hvalue), ih hbefore,
          List.filter_cons_of_neg (by simpa using he)]

theorem findVals_last (e : Text × Form) (found : Attrs) :
    findVals wanted (propertyList [e] none) found =
      Table.update found ([e].filter fun e => e.1 ∈ wanted) := by
  have hlist : propertyList [e] none = [.keyword e.1, e.2] := rfl
  rw [hlist]
  by_cases he : e.1 ∈ wanted
  · rw [findVals_wanted he, List.filter_cons_of_pos (by simpa using he)]
    rfl
  · rw [findVals_unwanted he, findVals_skip (.inl rfl), List.filter_cons_of_neg (by simpa using he)]
    rfl

theorem findVals_propertyList {properties : List (Text × Form)}
    (h : ∀ e ∈ followed properties trailing, ¬Misleads wanted e) :
    findVals wanted (propertyList properties trailing) [] =
      Table.ofList (properties.filter fun e => e.1 ∈ wanted) := by
  cases trailing with
  | some key =>
      have hall : ∀ e ∈ properties, ¬Misleads wanted e := h
      have hlist : propertyList properties (some key) =
          propertyList properties none ++ [.keyword key] := by
        simp [propertyList]
      rw [hlist, findVals_append hall]
      rfl
  | none =>
      rcases List.eq_nil_or_concat properties with rfl | ⟨before, last, rfl⟩
      · rfl
      · have hbefore : ∀ e ∈ before, ¬Misleads wanted e := by
          simpa [followed] using h
        rw [List.concat_eq_append, propertyList_append, findVals_append hbefore, findVals_last,
          List.filter_append, Table.ofList, Table.update, Table.update, Table.update,
          List.foldl_append]

theorem findVals_misled {before : List (Text × Form)} (hbefore : ∀ e ∈ before, ¬Misleads wanted e)
    {key name : Text} (unwanted : key ∉ wanted) (isWanted : name ∈ wanted) (next : Form)
    (more : List Form) :
    findVals wanted (propertyList before none ++ .keyword key :: .keyword name :: next :: more) [] =
      findVals wanted more
        (Table.insert name next (findVals wanted (propertyList before none) [])) := by
  have halone := findVals_append hbefore [] []
  rw [List.append_nil] at halone
  rw [findVals_append hbefore, findVals_unwanted unwanted, findVals_wanted isWanted, halone]
  rfl

theorem followed_isPrefix (properties : List (Text × Form)) (trailing : Option Text) :
    followed properties trailing <+: properties := by
  unfold followed
  split
  · exact List.prefix_rfl
  · exact List.dropLast_prefix properties

theorem exists_first_misleading {properties : List (Text × Form)}
    (h : ∃ e ∈ followed properties trailing, Misleads wanted e) :
    ∃ before key name next more, (∀ e ∈ before, ¬Misleads wanted e) ∧ key ∉ wanted ∧
      name ∈ wanted ∧ propertyList properties trailing =
        propertyList before none ++ .keyword key :: .keyword name :: .keyword next :: more := by
  classical
  obtain ⟨e, he⟩ : ∃ e, (followed properties trailing).find? (Misleads wanted ·) = some e := by
    rw [← Option.isSome_iff_exists, List.find?_isSome]
    simpa using h
  obtain ⟨hmisleads, before, behind, hfollowed, hbefore⟩ := List.find?_eq_some_iff_append.1 he
  obtain ⟨unwanted, name, isWanted, hvalue⟩ : Misleads wanted e := by simpa using hmisleads
  obtain ⟨tail, hproperties⟩ := followed_isPrefix properties trailing
  rw [hfollowed, List.append_assoc, List.cons_append] at hproperties
  have hnext : ∃ next more, propertyList (behind ++ tail) trailing = .keyword next :: more := by
    cases hbehind : behind ++ tail with
    | cons e' after => exact ⟨e'.1, _, rfl⟩
    | nil =>
        obtain ⟨rfl, rfl⟩ := List.append_eq_nil_iff.1 hbehind
        cases trailing with
        | some next => exact ⟨next, [], rfl⟩
        | none =>
            subst hproperties
            simp [followed] at hfollowed
  obtain ⟨next, more, hnext⟩ := hnext
  refine ⟨before, e.1, name, next, more, by simpa using hbefore, unwanted, isWanted, ?_⟩
  rw [← hproperties, propertyList_append, propertyList_cons, hvalue, hnext]

theorem get?_reverse (properties : List (Text × Form)) (name : Text) :
    Table.get? properties.reverse name = lastValue? name properties := by
  rw [Table.get?, ← List.head?_filter, List.filter_reverse, List.head?_reverse, lastValue?]

theorem lastValue?_filter (properties : List (Text × Form)) (name : Text) :
    lastValue? name (properties.filter fun e => e.1 ∈ wanted) =
      if name ∈ wanted then lastValue? name properties else none := by
  unfold lastValue?
  rw [List.filter_filter]
  split
  case isTrue isWanted =>
    have hfilter : properties.filter (fun e => decide (e.1 = name) && decide (e.1 ∈ wanted)) =
        properties.filter fun e => decide (e.1 = name) := by
      refine List.filter_congr fun e _ => ?_
      by_cases he : e.1 = name <;> simp [he, isWanted]
    rw [hfilter]
  case isFalse unwanted =>
    have hnone : properties.filter (fun e => decide (e.1 = name) && decide (e.1 ∈ wanted)) = [] := by
      refine List.filter_eq_nil_iff.2 fun e _ => ?_
      by_cases he : e.1 = name <;> simp [he, unwanted]
    rw [hnone]
    rfl

theorem get?_ofList_filter (properties : List (Text × Form)) (name : Text) :
    (Table.ofList (properties.filter fun e => e.1 ∈ wanted)).get? name =
      if name ∈ wanted then lastValue? name properties else none := by
  rw [Table.ofList, Table.get?_update_reverse, get?_reverse, lastValue?_filter]
  exact Option.or_none

/-- A property list is read pair by pair: of every wanted name that is the key of a property, and of
no other name, the last value is found.  This holds unless the value of a property that is not
wanted is a wanted keyword with something behind it.  The first such value is taken for a key, and
the key behind it for its value. -/
theorem findVals_reads_pairs (wanted : List Text) (properties : List (Text × Form))
    (trailing : Option Text) :
    ((∀ e ∈ followed properties trailing, ¬Misleads wanted e) →
      ((findVals wanted (propertyList properties trailing) []).map Prod.fst).Nodup ∧
      ∀ name, (findVals wanted (propertyList properties trailing) []).get? name =
        if name ∈ wanted then lastValue? name properties else none) ∧
    ((∃ e ∈ followed properties trailing, Misleads wanted e) →
      ∃ before key name next more, key ∉ wanted ∧ name ∈ wanted ∧
        propertyList properties trailing =
          propertyList before none ++ .keyword key :: .keyword name :: .keyword next :: more ∧
        findVals wanted (propertyList properties trailing) [] =
          findVals wanted more
            (Table.insert name (.keyword next) (findVals wanted (propertyList before none) []))) := by
  constructor
  · intro h
    rw [findVals_propertyList h]
    exact ⟨Table.nodup_update (t := []) .nil _, get?_ofList_filter properties⟩
  · intro h
    obtain ⟨before, key, name, next, more, hbefore, unwanted, isWanted, hlist⟩ :=
      exists_first_misleading h
    refine ⟨before, key, name, next, more, unwanted, isWanted, hlist, ?_⟩
    rw [hlist, findVals_misled hbefore unwanted isWanted]

def keywordValues : List (Text × Form) :=
  [("description", .keyword "profiles"), ("url", .keyword "license"), ("description", .str "d"),
   ("license", .keyword "description")]

theorem findVals_reads_keywordValues :
    (∀ e ∈ followed keywordValues none, ¬Misleads ["description", "profiles"] e) ∧
    findVals ["description", "profiles"] (propertyList keywordValues none) [] =
      [(Text.ofString "description", Form.str "d")] ∧
    ∀ name,
      (findVals ["description", "profiles"] (propertyList keywordValues none) []).get? name =
        if name ∈ [Text.ofString "description", "profiles"] then lastValue? name keywordValues
        else none := by
  have hfollowed : ∀ e ∈ followed keywordValues none,
      ¬Misleads ["description", "profiles"] e := by
    intro e he
    simp only [followed, keywordValues, Option.isSome_none, Bool.false_eq_true, if_false,
      List.dropLast, List.mem_cons, List.not_mem_nil, or_false] at he
    rintro ⟨unwanted, name, isWanted, hvalue⟩
    rcases he with rfl | rfl | rfl
    · exact unwanted (by decide)
    · cases hvalue
      exact absurd isWanted (by decide)
    · cases hvalue
  exact ⟨hfollowed, rfl, ((findVals_reads_pairs _ keywordValues none).1 hfollowed).2⟩

/-- The value of `:url` is taken for the key `:description`, which the list does not have. -/
theorem value_taken_for_key :
    let properties : List (Text × Form) := [("url", .keyword "description"), ("license", .str "MIT")]
    findVals ["description"] (propertyList properties none) [] =
        [(Text.ofString "description", Form.keyword "license")] ∧
      lastValue? "description" properties = none :=
  ⟨rfl, rfl⟩

end Docsmith.Form
