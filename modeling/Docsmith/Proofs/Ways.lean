import Docsmith.Pipeline.Provenance
import Docsmith.Proofs.Confinement
import Mathlib.Data.List.Induction

/-!
# Ways between paths

A path that is written out and read again is the same path.  The way from a directory to a
path leads there, by its names alone and also through the files of a machine.
-/

namespace Docsmith

/-! ## Texts of paths -/

namespace Text

theorem exists_splitOn_eq_cons (sep : CodePoint) (t : Text) :
    ∃ piece pieces, splitOn sep t = piece :: pieces := by
  cases t with
  | nil => exact ⟨[], [], rfl⟩
  | cons c r =>
      rw [splitOn]
      split
      · exact ⟨_, _, rfl⟩
      · split <;> exact ⟨_, _, rfl⟩

theorem splitOn_append_cons {sep : CodePoint} {t : Text} (h : sep ∉ t) (r : Text) :
    splitOn sep (t ++ sep :: r) = t :: splitOn sep r := by
  induction t with
  | nil =>
      obtain ⟨piece, pieces, hr⟩ := exists_splitOn_eq_cons sep r
      simp [splitOn, hr]
  | cons c t ih =>
      obtain ⟨hc, ht⟩ := not_or.1 (mt List.mem_cons.2 h)
      simp [splitOn, ih ht, Ne.symm hc]

theorem splitOn_join {sep : CodePoint} {ts : List Text} (hne : ts ≠ [])
    (h : ∀ t ∈ ts, sep ∉ t) : splitOn sep (join [sep] ts) = ts := by
  induction ts with
  | nil => exact absurd rfl hne
  | cons t ts ih =>
      have ht := h t List.mem_cons_self
      cases ts with
      | nil => exact splitOn_of_notMem ht
      | cons u ts =>
          rw [join, List.append_assoc, List.singleton_append, splitOn_append_cons ht,
            ih (List.cons_ne_nil u ts) fun t ht => h t (List.mem_cons_of_mem _ ht)]

theorem notMem_of_mem_splitOn {sep : CodePoint} {t piece : Text} (h : piece ∈ splitOn sep t) :
    sep ∉ piece := by
  induction t generalizing piece with
  | nil =>
      obtain rfl : piece = [] := by simpa [splitOn] using h
      exact List.not_mem_nil
  | cons c t ih =>
      obtain ⟨first, rest, ht⟩ := exists_splitOn_eq_cons sep t
      simp only [splitOn, ht] at h ih
      split at h
      case isTrue =>
        rcases List.mem_cons.1 h with rfl | h
        · exact List.not_mem_nil
        · exact ih h
      case isFalse hc =>
        rcases List.mem_cons.1 h with rfl | h
        · exact List.not_mem_cons_of_ne_of_not_mem (Ne.symm hc) (ih List.mem_cons_self)
        · exact ih (List.mem_cons_of_mem _ h)

end Text

namespace Path

/-- A name as it stands in a path that is read: it is not empty and not a point, and no slash
is in it. -/
structure IsName (n : Text) : Prop where
  nonempty : n ≠ []
  notPoint : n ≠ "."
  noSlash : ('/' : CodePoint) ∉ n

instance (n : Text) : Decidable (IsName n) :=
  decidable_of_iff (n ≠ [] ∧ n ≠ "." ∧ ('/' : CodePoint) ∉ n)
    ⟨fun ⟨hne, hpoint, hslash⟩ => ⟨hne, hpoint, hslash⟩, fun h => ⟨h.nonempty, h.notPoint, h.noSlash⟩⟩

theorem isName_of_mem_ofText {t n : Text} (h : n ∈ (ofText t).names) : IsName n := by
  obtain ⟨hpiece, hkept⟩ := List.mem_filter.1 h
  simp only [Bool.not_eq_true', Bool.or_eq_false_iff, List.isEmpty_eq_false_iff,
    decide_eq_false_iff_not] at hkept
  exact ⟨hkept.1, hkept.2, Text.notMem_of_mem_splitOn hpiece⟩

theorem isName_points : IsName ".." := ⟨by decide, by decide, by decide⟩

theorem ofText_join {names : List Text} (hne : names ≠ []) (h : ∀ n ∈ names, IsName n) :
    ofText (Text.join "/" names) = relative names := by
  have hsplit : Text.splitOn '/' (Text.join "/" names) = names :=
    Text.splitOn_join hne fun n hn => (h n hn).noSlash
  have hkept : (names.filter fun (n : Text) => !(n.isEmpty || n = ".")) = names := by
    refine List.filter_eq_self.2 fun n hn => ?_
    simp [(h n hn).nonempty, (h n hn).notPoint]
  have hstart : Text.startsWith (Text.join "/" names) "/" = false := by
    obtain ⟨first, rest, rfl⟩ := List.exists_cons_of_ne_nil hne
    have hfirst := h first List.mem_cons_self
    obtain ⟨c, cs, rfl⟩ := List.exists_cons_of_ne_nil hfirst.nonempty
    have hc : ('/' : CodePoint) ≠ c := fun hc => hfirst.noSlash (hc ▸ List.mem_cons_self)
    cases rest with
    | nil => simp [Text.join, Text.startsWith, Text.ofString, List.isPrefixOf, hc]
    | cons next rest => simp [Text.join, Text.startsWith, Text.ofString, List.isPrefixOf, hc]
  rw [ofText, hstart, hsplit, hkept]
  rfl

theorem ofText_text {names : List Text} (h : ∀ n ∈ names, IsName n) :
    ofText (relative names).text = relative names := by
  cases names with
  | nil => rfl
  | cons n names => exact ofText_join (List.cons_ne_nil n names) h

/-! ## Names without two points -/

theorem collapse_concat_points (names : List Text) :
    collapse (names ++ [Text.ofString ".."]) = (collapse names).dropLast := by
  simp [collapse, List.foldl_append]

theorem collapse_concat {n : Text} (h : n ≠ "..") (names : List Text) :
    collapse (names ++ [n]) = collapse names ++ [n] := by
  simp [collapse, List.foldl_append, h]

theorem collapse_append_points (names : List Text) (k : Nat) :
    collapse (names ++ List.replicate k (Text.ofString "..")) =
      (collapse names).take ((collapse names).length - k) := by
  induction k with
  | zero => simp
  | succ k ih =>
      rw [List.replicate_succ', ← List.append_assoc, collapse_concat_points, ih,
        List.dropLast_eq_take, List.take_take, List.length_take]
      congr 1
      omega

theorem collapse_append {down : List Text} (h : Text.ofString ".." ∉ down) (names : List Text) :
    collapse (names ++ down) = collapse names ++ down := by
  induction down using List.reverseRecOn with
  | nil => simp
  | append_singleton down n ih =>
      have hn : n ≠ ".." := by
        rintro rfl
        exact h (List.mem_append_right _ List.mem_cons_self)
      have hdown := ih fun hmem => h (List.mem_append_left _ hmem)
      rw [← List.append_assoc, collapse_concat hn, hdown, List.append_assoc]

theorem points_notMem_collapse (names : List Text) : Text.ofString ".." ∉ collapse names := by
  induction names using List.reverseRecOn with
  | nil => exact List.not_mem_nil
  | append_singleton names n ih =>
      by_cases hn : n = ".."
      · subst hn
        rw [collapse_concat_points]
        exact fun hmem => ih (List.dropLast_subset _ hmem)
      · rw [collapse_concat hn, List.mem_append, List.mem_singleton]
        exact fun hmem => hmem.elim ih (Ne.symm hn)

theorem collapse_subset (names : List Text) : collapse names ⊆ names := by
  induction names using List.reverseRecOn with
  | nil => exact List.Subset.refl []
  | append_singleton names n ih =>
      by_cases hn : n = ".."
      · subst hn
        rw [collapse_concat_points]
        exact fun _ hmem => List.mem_append_left _ (ih (List.dropLast_subset _ hmem))
      · rw [collapse_concat hn]
        exact List.append_subset.2 ⟨fun _ hmem => List.mem_append_left _ (ih hmem),
          List.subset_append_right names [n]⟩

theorem common_le (a b : List Text) : common a b ≤ a.length := by
  fun_induction common a b with
  | case1 n s t ih => exact Nat.succ_le_succ ih
  | case2 => exact Nat.zero_le _
  | case3 => exact Nat.zero_le _

theorem take_common (a b : List Text) : a.take (common a b) = b.take (common a b) := by
  fun_induction common a b with
  | case1 n s t ih => rw [List.take_succ_cons, List.take_succ_cons, ih]
  | case2 => rfl
  | case3 => rfl

/-! ## There and back -/

theorem names_join_join (cwd p : Path) (names : List Text) :
    (cwd.join (p.join (relative names))).names = (cwd.join p).names ++ names := by
  cases habs : p.absolute with
  | true => simp [join, relative, habs]
  | false => simp [join, relative, habs]

theorem resolve_join_wayFrom (cwd start p : Path) :
    resolve cwd (start.join (wayFrom cwd start p)) = resolve cwd p := by
  unfold wayFrom
  extract_lets a b n
  have ha : collapse (cwd.join start).names = a := rfl
  have hb : Text.ofString ".." ∉ b := points_notMem_collapse _
  have hdown : Text.ofString ".." ∉ b.drop n := fun hmem => hb (List.mem_of_mem_drop hmem)
  have hup : a.take (a.length - (a.length - n)) = b.take n := by
    rw [Nat.sub_sub_self (common_le a b)]
    exact take_common a b
  refine congrArg (Path.mk true) ?_
  calc collapse (cwd.join (start.join (relative
          (List.replicate (a.length - n) (Text.ofString "..") ++ b.drop n)))).names
      = a.take (a.length - (a.length - n)) ++ b.drop n := by
        rw [names_join_join, ← List.append_assoc, collapse_append hdown, collapse_append_points, ha]
    _ = b := by rw [hup, List.take_append_drop]

theorem join_of_below? {base p q : Path} (h : below? base p = some q) : base.join q = p := by
  unfold below? at h
  split at h
  case isTrue hbelow =>
    obtain ⟨habs, hprefix⟩ := Bool.and_eq_true_iff.1 hbelow
    have habs : base.absolute = p.absolute := by simpa using habs
    obtain ⟨rest, hrest⟩ := List.isPrefixOf_iff_prefix.1 hprefix
    cases h
    obtain ⟨absolute, names⟩ := p
    obtain rfl : base.absolute = absolute := habs
    obtain rfl : base.names ++ rest = names := hrest
    simp [join, relative]
  case isFalse => cases h

theorem below?_join {q : Path} (h : q.absolute = false) (base : Path) :
    below? base (base.join q) = some (relative q.names) := by
  simp [below?, join, h]

end Path

namespace FileTree

open Docsmith.Path

theorem ofText_relativeTo {q : Path} (hq : ∀ n ∈ q.names, IsName n) (cwd root : Path) :
    ofText (relativeTo cwd root (root.join q)) =
      (below? root (root.join q)).getD (wayFrom cwd root (root.join q)) := by
  unfold relativeTo
  cases habs : q.absolute with
  | false =>
      rw [below?_join habs, Option.getD_some]
      exact ofText_text hq
  | true =>
      have hjoin : root.join q = q := by simp [join, habs]
      have hdrop (n : Nat) (l : List Text) (hl : l ⊆ q.names) : ∀ m ∈ l.drop n, IsName m :=
        fun m hm => hq m (hl (List.mem_of_mem_drop hm))
      rw [hjoin]
      cases hbelow : below? root q with
      | some r =>
          unfold below? at hbelow
          split at hbelow
          · cases hbelow
            exact ofText_text (hdrop _ _ (List.Subset.refl _))
          · cases hbelow
      | none =>
          refine ofText_text fun m hm => ?_
          rcases List.mem_append.1 hm with hm | hm
          · obtain rfl := List.eq_of_mem_replicate hm
            exact isName_points
          · have hnames : (cwd.join q).names = q.names := by simp [join, habs]
            refine hdrop _ _ ?_ m hm
            rw [← hnames]
            exact collapse_subset _

theorem join_relativeTo {q : Path} (hq : ∀ n ∈ q.names, IsName n) (h : q.absolute = false)
    (cwd root : Path) :
    root.join (ofText (relativeTo cwd root (root.join q))) = root.join q := by
  rw [ofText_relativeTo hq, below?_join h]
  exact join_of_below? (below?_join h root)

theorem resolve_relativeTo {q : Path} (hq : ∀ n ∈ q.names, IsName n) (cwd root : Path) :
    resolve cwd (root.join (ofText (relativeTo cwd root (root.join q)))) =
      resolve cwd (root.join q) := by
  rw [ofText_relativeTo hq]
  cases hbelow : below? root (root.join q) with
  | some r => rw [Option.getD_some, join_of_below? hbelow]
  | none => exact resolve_join_wayFrom cwd root (root.join q)

/-! ## Walks -/

variable {t : FileTree}

theorem isFile_iff {cwd p : Path} : t.isFile cwd p = true ↔
    ∃ place bytes, t.place cwd p = .ok place ∧ t.entry? place = some (.file bytes) := by
  unfold isFile lookup?
  cases hplace : t.place cwd p with
  | error stop => simp
  | ok place =>
      cases hentry : t.entry? place with
      | none => simp [hentry]
      | some e => cases e <;> simp [hentry]

theorem isDirectory_iff {cwd p : Path} : t.isDirectory cwd p = true ↔
    ∃ place, t.place cwd p = .ok place ∧ t.entry? place = some .directory := by
  unfold isDirectory lookup?
  cases hplace : t.place cwd p with
  | error stop => simp
  | ok place =>
      cases hentry : t.entry? place with
      | none => simp [hentry]
      | some e => cases e <;> simp [hentry]

theorem walkFrom_append (here a b : List Text) :
    t.walkFrom here (a ++ b) = t.walkFrom here a >>= (t.walkFrom · b) := by
  induction a generalizing here with
  | nil => rfl
  | cons n a ih =>
      rw [List.cons_append, walkFrom, walkFrom]
      split
      · rfl
      · split <;> exact ih _

def Reaches (t : FileTree) (place : List Text) : Prop :=
  ∀ k < place.length, t.entry? (place.take k) = some .directory

theorem reaches_of_walkFrom {here names place : List Text} (hhere : t.Reaches here)
    (h : t.walkFrom here names = .ok place) : t.Reaches place := by
  induction names generalizing here with
  | nil =>
      cases h
      exact hhere
  | cons n names ih =>
      rw [walkFrom] at h
      split at h
      case isTrue => cases h
      case isFalse hdirectory =>
        split at h
        · refine ih (fun k hk => ?_) h
          have hk : k < here.length - 1 := by simpa using hk
          rw [List.dropLast_eq_take, List.take_take, Nat.min_eq_left (by omega)]
          exact hhere k (by omega)
        · refine ih (fun k hk => ?_) h
          have hk : k ≤ here.length := by simpa [Nat.lt_succ_iff] using hk
          rw [List.take_append_of_le_length hk]
          rcases Nat.lt_or_eq_of_le hk with hk | rfl
          · exact hhere k hk
          · rw [List.take_length]
            exact not_not.1 hdirectory

theorem reaches_of_place {cwd p : Path} {place : List Text} (h : t.place cwd p = .ok place) :
    t.Reaches place :=
  reaches_of_walkFrom (by simp [Reaches]) h

theorem walkFrom_points {place : List Text} (hplace : t.Reaches place)
    (hdirectory : t.entry? place = some .directory) (k : Nat) :
    t.walkFrom place (List.replicate k (Text.ofString "..")) =
      .ok (place.take (place.length - k)) := by
  have habove (k : Nat) : t.entry? (place.take (place.length - k)) = some .directory := by
    cases k with
    | zero => simpa using hdirectory
    | succ k =>
        cases place with
        | nil => simpa using hdirectory
        | cons n place =>
            refine hplace _ ?_
            rw [List.length_cons]
            omega
  induction k with
  | zero => simp [walkFrom]
  | succ k ih =>
      rw [List.replicate_succ', walkFrom_append, ih]
      change t.walkFrom (place.take (place.length - k)) [Text.ofString ".."] = _
      have hstep : (place.take (place.length - k)).dropLast = place.take (place.length - (k + 1)) := by
        rw [List.dropLast_eq_take, List.take_take, List.length_take]
        congr 1
        omega
      simp [walkFrom, habove k, hstep]

theorem walkFrom_down {here down : List Text} (h : Text.ofString ".." ∉ down)
    (hreaches : t.Reaches (here ++ down)) : t.walkFrom here down = .ok (here ++ down) := by
  induction down generalizing here with
  | nil => simp [walkFrom]
  | cons n down ih =>
      obtain ⟨hn, hdown⟩ := not_or.1 (mt List.mem_cons.2 h)
      have hhere : t.entry? here = some .directory := by
        simpa using hreaches here.length (by simp)
      have hrest := ih hdown (by simpa using hreaches : t.Reaches (here ++ [n] ++ down))
      simpa [walkFrom, hhere, Ne.symm hn] using hrest

theorem place_join_wayFrom {cwd start p : Path} {place : List Text}
    (hstart : t.isDirectory cwd start = true) (h : t.place cwd p = .ok place) :
    t.place cwd (start.join (wayFrom cwd start p)) = .ok place := by
  obtain ⟨a, ha, hdirectory⟩ := isDirectory_iff.1 hstart
  have hnames : a = (resolve cwd start).names := eq_resolve_of_place ha
  have hplace : place = (resolve cwd p).names := eq_resolve_of_place h
  have hdown : Text.ofString ".." ∉ place := hplace ▸ points_notMem_collapse _
  have hway : wayFrom cwd start p = relative (List.replicate (a.length - common a place)
      (Text.ofString "..") ++ place.drop (common a place)) := by
    rw [wayFrom, ← hnames, ← hplace]
  rw [hway]
  generalize hn : common a place = n
  have hup : a.take (a.length - (a.length - n)) = place.take n := by
    rw [← hn, Nat.sub_sub_self (common_le a place)]
    exact take_common a place
  calc t.place cwd (start.join (relative
          (List.replicate (a.length - n) (Text.ofString "..") ++ place.drop n)))
      = t.walkFrom a (List.replicate (a.length - n) (Text.ofString "..") ++ place.drop n) := by
        rw [FileTree.place, names_join_join, walkFrom_append, show t.walkFrom [] _ = .ok a from ha]
        rfl
    _ = t.walkFrom (place.take n) (place.drop n) := by
        rw [walkFrom_append, walkFrom_points (reaches_of_place ha) hdirectory, hup]
        rfl
    _ = .ok place := by
        have hreaches : t.Reaches (place.take n ++ place.drop n) := by
          rw [List.take_append_drop]
          exact reaches_of_place h
        rw [walkFrom_down (fun hmem => hdown (List.mem_of_mem_drop hmem)) hreaches,
          List.take_append_drop]

theorem place_relativeTo {q : Path} (hq : ∀ n ∈ q.names, IsName n) {cwd root : Path}
    {place : List Text} (hroot : t.isDirectory cwd root = true)
    (h : t.place cwd (root.join q) = .ok place) :
    t.place cwd (root.join (ofText (relativeTo cwd root (root.join q)))) = .ok place := by
  rw [ofText_relativeTo hq]
  cases hbelow : below? root (root.join q) with
  | some r => rwa [Option.getD_some, join_of_below? hbelow]
  | none => exact place_join_wayFrom hroot h

end FileTree

end Docsmith
