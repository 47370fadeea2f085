import Docsmith.Options.Basic
import Docsmith.Proofs.Conversion

/-!
# Which settings are refused

Options are set one by one, and the first value that is not accepted ends it.  Some of these
ends are faults of the configuration and are told as such.  The others derail: a number that
is too long to be written, a selector that is none, a root that is no path.
-/

namespace Docsmith

/-! ## Steps that derail -/

def Failure.isConfig : Failure → Bool
  | .config _ => true
  | _ => false

theorem Failure.not_isConfig_of_not_isFatal {f : Failure} (h : f.isFatal = false) :
    f.isConfig = false := by
  cases f with
  | config => cases h
  | _ => rfl

def Derails {α : Type} (x : Except Failure α) : Prop := ∃ f, x = .error f ∧ f.isConfig = false

section Derails

variable {α β : Type} {x : Except Failure α}

theorem not_derails_ok (a : α) : ¬Derails (.ok a : Except Failure α) := by
  rintro ⟨f, h, -⟩
  cases h

theorem derails_error_iff (f : Failure) :
    Derails (.error f : Except Failure α) ↔ f.isConfig = false := by
  simp [Derails]

structure Settles {α : Type} (x : Except Failure α) (accepted derailed : Bool) : Prop where
  ok_iff : (∃ a, x = .ok a) ↔ accepted = true
  derails_iff : Derails x ↔ derailed = true

theorem settles_ok (a : α) : Settles (.ok a) true false :=
  ⟨by simp, by simpa using not_derails_ok a⟩

theorem settles_error {f : Failure} {derailed : Bool} (h : f.isConfig = !derailed) :
    Settles (.error f : Except Failure α) false derailed := by
  refine ⟨by simp, ?_⟩
  rw [derails_error_iff, h]
  simp

theorem Needs.settles {c : Bool} {p : α → Prop} (h : Needs x (c = true) p) : Settles x c !c := by
  cases c with
  | true =>
      obtain ⟨a, rfl, -⟩ := h.gives rfl
      exact settles_ok a
  | false =>
      obtain ⟨f, rfl, hf⟩ := h.strays (by simp)
      exact settles_error (Failure.not_isConfig_of_not_isFatal hf)

theorem Settles.bind_ok {a d : Bool} (h : Settles x a d) (g : α → β) :
    Settles (x >>= fun v => .ok (g v)) a d := by
  cases x with
  | error f => exact ⟨by simpa [bind, Except.bind] using h.ok_iff, by
      simpa [Derails, bind, Except.bind] using h.derails_iff⟩
  | ok v => exact ⟨by simpa [bind, Except.bind] using h.ok_iff, by
      simpa [Derails, bind, Except.bind] using h.derails_iff⟩

theorem settles_ite {c : Prop} [Decidable c] {y : Except Failure α} {a d : Bool}
    (hx : c → Settles x a d) (hy : ¬c → Settles y a d) : Settles (if c then x else y) a d := by
  split
  · exact hx ‹_›
  · exact hy ‹_›

end Derails

/-! ## Selectors -/

namespace Selector

def isPattern : Value → Bool
  | .selector _ | .regex _ => true
  | .dict d =>
      match Dict.getText? d "regex" with
      | some (.str source) => (Regex.compilePosix source).isOk
      | _ => false
  | .str t => ((regexLiteral? t).map fun source => (Regex.compilePosix source).isOk).getD true
  | v => v.writable

def isSelection : Value → Bool
  | .null => true
  | .list items | .tuple items | .set items => items.all isPattern
  | .bytes _ => true
  | .str t => t = everything || isPattern (.str t)
  | .regex r => isPattern (.regex r)
  | .dict d => isPattern (.dict d)
  | _ => false

theorem needs_compileRegex (source : Text) :
    Needs (compileRegex source) ((Regex.compilePosix source).isOk = true) fun _ => True := by
  unfold compileRegex
  cases Regex.compilePosix source with
  | ok r => exact Needs.of_iff (needs_ok trivial) (by simp [Except.isOk, Except.toBool])
  | error fault => exact ⟨nofun, fun _ => ⟨_, rfl, rfl⟩⟩

theorem isFatal_shown (v : Value) (bad : Text → BadValue) :
    (v.shown fun t => .value (bad t)).isFatal = false := by
  unfold Value.shown
  split <;> rfl

theorem needs_ofValue (v : Value) : Needs (ofValue v) (isPattern v = true) fun _ => True := by
  cases v with
  | selector s => exact Needs.of_iff (needs_ok trivial) (by simp [isPattern])
  | regex r => exact Needs.of_iff (needs_ok trivial) (by simp [isPattern])
  | dict d =>
      unfold ofValue
      dsimp only
      split
      case h_1 source hsource =>
        refine ((needs_compileRegex source).map _).of_iff ?_
        simp only [isPattern, hsource]
      case h_2 hother =>
        have hnone : isPattern (.dict d) = false := by
          unfold isPattern
          dsimp only
          split
          case h_1 source hsource => exact absurd hsource (hother source)
          case h_2 => rfl
        rw [hnone]
        exact ⟨fun h => absurd h Bool.false_ne_true, fun _ => ⟨_, rfl, isFatal_shown _ _⟩⟩
  | str t =>
      unfold ofValue isPattern
      dsimp only
      cases hliteral : regexLiteral? t with
      | some source => exact (needs_compileRegex source).map _
      | none => exact Needs.of_iff (needs_ok trivial) (by simp)
  | _ =>
      unfold ofValue isPattern
      dsimp only
      split
      · exact Needs.of_iff (needs_ok trivial) (by simp [*])
      · exact ⟨fun h => absurd h ‹_›, fun _ => ⟨_, rfl, rfl⟩⟩

theorem needs_allOfValue (v : Value) :
    Needs (Options.toSelection v) (isSelection v = true) fun _ => True := by
  cases v with
  | null => exact Needs.of_iff (needs_ok trivial) (by simp [isSelection])
  | bytes b => exact Needs.of_iff (needs_ok trivial) (by simp [isSelection])
  | list items | tuple items | set items =>
      refine ((needs_mapM fun v _ => needs_ofValue v).map _).of_iff ?_
      simp [isSelection]
  | str t =>
      by_cases hall : t = everything
      · simp only [Options.toSelection, allOfValue, hall, if_true]
        exact Needs.of_iff (needs_ok trivial) (by simp [isSelection])
      · simp only [Options.toSelection, allOfValue, hall, if_false]
        refine ((needs_ofValue (.str t)).map _).of_iff ?_
        simp [isSelection, hall]
  | regex r =>
      simp only [Options.toSelection, allOfValue]
      exact (needs_ofValue (.regex r)).map _
  | dict d =>
      simp only [Options.toSelection, allOfValue]
      exact (needs_ofValue (.dict d)).map _
  | _ => exact ⟨nofun, fun _ => ⟨.wrongKind, rfl, rfl⟩⟩

end Selector

/-! ## Paths -/

inductive OptionKind where
  | text
  | texts
  | selection
  | exclusion
  | metadata
  | commit
  | free
deriving DecidableEq, Repr

namespace OptionKind

def byKey : Table Text OptionKind :=
  [("language", .text), ("source_paths", .texts), ("namespaces", .selection),
   ("exclude_vars", .exclusion), ("doc_paths", .texts), ("doc_files", .texts),
   ("metadata", .metadata), ("writer", .text), ("output_path", .text), ("src_dir_uri", .text),
   ("src_linenum_anchor_prefix", .text), ("git_commit", .commit), ("themes", .texts),
   ("name", .text), ("version", .text), ("description", .text)]

def ofKey (key : Text) : OptionKind := (byKey.get? key).getD .free

def isExclusion : Value → Bool
  | .null | .regex _ | .selector (.regex _) => true
  | .str t => (Regex.compilePosix ((regexLiteral? t).getD t)).isOk
  | _ => false

def accepts : OptionKind → Value → Bool
  | .text, v => v.writable
  | .texts, .list items | .texts, .tuple items =>
      items.all fun item => !Options.isTextItem item || item.writable
  | .texts, _ => true
  | .selection, v => Selector.isSelection v
  | .exclusion, v => isExclusion v
  | .metadata, .null | .metadata, .dict _ => true
  | .metadata, _ => false
  | .commit, .null | .commit, .known _ | .commit, .pending _ => true
  | .commit, v => v.writable
  | .free, _ => true

/-- The value is refused, and not as a fault of the configuration.  Metadata are never refused
so, and exclusions only for a count that is too large or where they cannot be shown. -/
def derails : OptionKind → Value → Bool
  | .metadata, _ | .free, _ => false
  | .exclusion, .str t =>
      match Regex.compilePosix ((regexLiteral? t).getD t) with
      | .error .hugeCount => true
      | _ => false
  | .exclusion, v => !isExclusion v && !v.writable
  | kind, v => !kind.accepts v

end OptionKind

namespace Options

theorem needs_toText (v : Value) : Needs (toText v) (v.writable = true) fun _ => True := by
  unfold toText
  split
  · exact Needs.of_iff (needs_ok trivial) (by simp [*])
  · exact ⟨fun h => absurd h ‹_›, fun _ => ⟨_, rfl, rfl⟩⟩

theorem needs_toTextOrNone (v : Value) :
    Needs (toTextOrNone v) (v.writable = true) fun _ => True := by
  unfold toTextOrNone
  split
  · cases v with
    | null => exact Needs.of_iff (needs_ok trivial) (by simp [Value.writable])
    | _ => simp_all [Value.isNull]
  · exact (needs_toText v).map _

theorem needs_toTexts (v : Value) :
    Needs (toTexts v) (OptionKind.texts.accepts v = true) fun _ => True := by
  cases v with
  | list items | tuple items =>
      refine (needs_mapM fun item _ => needs_toText item).of_iff ?_
      simp [OptionKind.accepts, ← Bool.not_eq_true, or_iff_not_imp_left]
  | _ => exact Needs.of_iff (needs_ok trivial) (by simp [OptionKind.accepts])

theorem needs_toDocFiles (v : Value) :
    Needs (toDocFiles v) (OptionKind.texts.accepts v = true) fun _ => True := by
  unfold toDocFiles
  split
  · refine Needs.of_iff (needs_ok trivial) (iff_of_true ?_ trivial)
    cases v with
    | list items | tuple items => simp_all [Value.isNull, Value.isText]
    | _ => rfl
  · exact (needs_toTexts v).map _

theorem needs_toCommit (root : Path) (v : Value) :
    Needs (toCommit root v) (OptionKind.commit.accepts v = true) fun _ => True := by
  cases v with
  | null | known _ | pending _ =>
      exact Needs.of_iff (needs_ok trivial) (by simp [OptionKind.accepts])
  | _ =>
      simp only [toCommit, OptionKind.accepts]
      exact (needs_toText _).map _

theorem settles_toMetadata (v : Value) :
    Settles (toMetadata v) (OptionKind.metadata.accepts v) false := by
  cases v with
  | null => exact settles_ok _
  | dict d => exact settles_ok _
  | _ => exact settles_error rfl

theorem settles_toExclusion_of_error {v : Value}
    (h : Selector.exclusionOfValue v = .error (v.shown fun t => .value (.exclusion t))) :
    Settles (toExclusion v) false !v.writable := by
  unfold toExclusion
  rw [h]
  cases hv : v.writable with
  | true =>
      simp only [Value.shown, hv, if_true]
      exact settles_error rfl
  | false =>
      simp only [Value.shown, hv]
      exact settles_error rfl

theorem settles_toExclusion (v : Value) :
    Settles (toExclusion v) (OptionKind.exclusion.accepts v) (OptionKind.exclusion.derails v) := by
  cases v with
  | null => exact settles_ok _
  | regex r => exact settles_ok _
  | str t =>
      unfold toExclusion OptionKind.accepts OptionKind.derails OptionKind.isExclusion
      simp only [Selector.exclusionOfValue, Selector.compileRegex]
      cases Regex.compilePosix ((regexLiteral? t).getD t) with
      | ok r => exact settles_ok _
      | error fault => cases fault <;> exact settles_error rfl
  | selector s =>
      cases s with
      | regex r => exact settles_ok _
      | exact name => exact settles_toExclusion_of_error rfl
  | _ => exact settles_toExclusion_of_error rfl

theorem settles_set (o : Options) (key : Text) (v : Value) :
    Settles (o.set key v) ((OptionKind.ofKey key).accepts v)
      ((OptionKind.ofKey key).derails v) := by
  unfold set
  refine settles_ite (fun hlanguage => ?_) fun _ => ?_
  · subst hlanguage
    exact (needs_toText v).settles.bind_ok _
  refine settles_ite (fun hsources => ?_) fun _ => ?_
  · subst hsources
    exact (needs_toTexts v).settles.bind_ok _
  refine settles_ite (fun hnamespaces => ?_) fun _ => ?_
  · subst hnamespaces
    exact (Selector.needs_allOfValue v).settles.bind_ok _
  refine settles_ite (fun hexclude => ?_) fun _ => ?_
  · subst hexclude
    exact (settles_toExclusion v).bind_ok _
  refine settles_ite (fun hdocPaths => ?_) fun _ => ?_
  · subst hdocPaths
    exact (needs_toTexts v).settles.bind_ok _
  refine settles_ite (fun hdocFiles => ?_) fun _ => ?_
  · subst hdocFiles
    exact (needs_toDocFiles v).settles.bind_ok _
  refine settles_ite (fun hmetadata => ?_) fun _ => ?_
  · subst hmetadata
    exact (settles_toMetadata v).bind_ok _
  refine settles_ite (fun hwriter => ?_) fun _ => ?_
  · subst hwriter
    exact (needs_toText v).settles.bind_ok _
  refine settles_ite (fun houtput => ?_) fun _ => ?_
  · subst houtput
    exact (needs_toText v).settles.bind_ok _
  refine settles_ite (fun huri => ?_) fun _ => ?_
  · subst huri
    exact (needs_toTextOrNone v).settles.bind_ok _
  refine settles_ite (fun hanchor => ?_) fun _ => ?_
  · subst hanchor
    exact (needs_toTextOrNone v).settles.bind_ok _
  refine settles_ite (fun hcommit => ?_) fun _ => ?_
  · subst hcommit
    exact (needs_toCommit o.root v).settles.bind_ok _
  refine settles_ite (fun hthemes => ?_) fun _ => ?_
  · subst hthemes
    exact (needs_toTexts v).settles.bind_ok _
  refine settles_ite (fun hname => ?_) fun _ => ?_
  · subst hname
    exact (needs_toTextOrNone v).settles.bind_ok _
  refine settles_ite (fun hversion => ?_) fun _ => ?_
  · subst hversion
    exact (needs_toTextOrNone v).settles.bind_ok _
  refine settles_ite (fun hdescription => ?_) fun _ => ?_
  · subst hdescription
    exact (needs_toTextOrNone v).settles.bind_ok _
  refine settles_ite (fun hhandler => ?_) fun _ => ?_
  · subst hhandler
    exact settles_ok _
  have hfree : OptionKind.ofKey key = .free := by
    simp [OptionKind.ofKey, OptionKind.byKey, Table.get?, *, eq_comm]
  rw [hfree]
  exact settles_ok _

/-! ## Tables of options -/

end Options

end Docsmith
