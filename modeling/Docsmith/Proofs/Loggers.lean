import Docsmith.Proofs.Presence

/-!
# What logging puts out

Loggers may be set up any number of times.  Whatever handlers there were, there are then those
that were asked for and no others.  Until the next time a record of at least their level is put
out once by each of them, but for a record that has no bytes: a log file loses it, and the console
says so.
-/

namespace Docsmith

/-! ## Handlers -/

namespace Logging

end Logging

structure LogSetting where
  level : Level
  file : Option (List Text)

namespace LogSetting

def ofFlags (cwd : Path) (verbose : Bool) (file : Option Path) : LogSetting :=
  ⟨Logging.levelFor verbose, file.map fun p => (Path.resolve cwd p).names⟩

def destinations (s : LogSetting) : List Destination := .console :: (s.file.map .file).toList

/-- One handler for the console, and behind it one for the log file if there is one, all of the
level of the loggers. -/
def logging (s : LogSetting) : Logging := ⟨s.level, s.destinations.map fun d => ⟨d, s.level⟩⟩

def takes (s : LogSetting) (r : LogRecord) : Bool := s.level.rank ≤ r.level.rank

theorem takers_eq (s : LogSetting) (r : LogRecord) :
    s.logging.takers r = if s.takes r then s.logging.handlers else [] := by
  unfold takes Logging.takers
  by_cases hlevel : s.level.rank ≤ r.level.rank
  · rw [if_neg (show ¬r.level.rank < s.logging.level.rank from Nat.not_lt.2 hlevel),
      if_pos (by simpa using hlevel), List.filter_eq_self]
    intro h hh
    obtain ⟨d, -, rfl⟩ := List.mem_map.1 hh
    simpa using hlevel
  · rw [if_pos (show r.level.rank < s.logging.level.rank from Nat.lt_of_not_le hlevel),
      if_neg (by simpa using hlevel)]

end LogSetting

/-! ## What is put out -/

/-- What a place holds, which is nothing unless there is a file. -/
def FileTree.bytesAt (t : FileTree) (place : List Text) : Bytes :=
  match t.entry? place with
  | some (.file bytes) => bytes
  | _ => []

namespace FileTree

variable {t : FileTree} {place : List Text}

theorem entry?_append (h : t.Holds place) (bytes : Bytes) :
    entry? (t.append place bytes) place = some (.file (t.bytesAt place ++ bytes)) := by
  obtain ⟨old, hold⟩ := h
  rw [append, bytesAt, hold]
  exact entry?_put_self (ne_nil_of_entry?_eq_file hold) t _

theorem entry?_append_of_ne {q : List Text} (h : q ≠ place) (bytes : Bytes) :
    entry? (t.append place bytes) q = t.entry? q := by
  unfold append
  split
  · exact entry?_put_of_ne h t _
  · rfl

theorem bytesAt_of_entry?_eq {t' : FileTree} (h : t'.entry? place = t.entry? place) :
    t'.bytesAt place = t.bytesAt place := by
  rw [bytesAt, bytesAt, h]

theorem bytesAt_of_file {bytes : Bytes} (h : t.entry? place = some (.file bytes)) :
    t.bytesAt place = bytes := by
  rw [bytesAt, h]

end FileTree

namespace LogRecord

/-- No surrogate is in the line of the record, so that a log file can hold it. -/
def encodable (time : Text) (r : LogRecord) : Bool := (r.fileLine time).all fun c => !c.isSurrogate

def fileBytes (time : Text) (r : LogRecord) : Bytes := (r.fileLine time).flatMap Utf8.encodePoint

theorem encode_fileLine {time : Text} {r : LogRecord} (h : r.encodable time = true) :
    Utf8.encode (r.fileLine time) = .ok (r.fileBytes time) := by
  have hnone : (r.fileLine time).dropWhile (!·.isSurrogate) = [] :=
    List.dropWhile_eq_nil_iff.2 (List.all_eq_true.1 h)
  rw [Utf8.encode, hnone]
  rfl

theorem exists_encode_fileLine_eq_error {time : Text} {r : LogRecord}
    (h : r.encodable time = false) : ∃ e, Utf8.encode (r.fileLine time) = .error e := by
  unfold Utf8.encode
  cases hrest : (r.fileLine time).dropWhile (!·.isSurrogate) with
  | nil =>
      have hall : r.encodable time = true :=
        List.all_eq_true.2 (List.dropWhile_eq_nil_iff.1 hrest)
      rw [hall] at h
      cases h
  | cons c rest => exact ⟨_, rfl⟩

end LogRecord

namespace Workspace

/-- The report of a record that a log file loses; there is none of the others. -/
def lossOf (w : Workspace) (r : LogRecord) : Text :=
  match Utf8.encode (r.fileLine w.time) with
  | .ok _ => []
  | .error e => w.report r e

/-- What the console shows and what each place holds has grown as said, and nothing has been
kept.  Some files have been opened, and all places but those are as they were. -/
structure Gains (opened : List (List Text)) (shown : Text) (added : List Text → Bytes)
    (w w' : Workspace) : Prop where
  cwd : w'.cwd = w.cwd
  time : w'.time = w.time
  report : w'.report = w.report
  log : w'.log = w.log
  console : w'.console = w.console ++ shown
  bytes : ∀ place, w'.tree.bytesAt place = w.tree.bytesAt place ++ added place
  holds : ∀ place, w.tree.Holds place ∨ place ∈ opened → w'.tree.Holds place
  others : ∀ place ∉ opened, w'.tree.entry? place = w.tree.entry? place

variable {w w' w'' : Workspace} {opened opened' : List (List Text)} {shown shown' : Text}
  {added added' : List Text → Bytes}

theorem Gains.trans (h : Gains opened shown added w w') (h' : Gains opened' shown' added' w' w'') :
    Gains (opened ++ opened') (shown ++ shown') (fun place => added place ++ added' place)
      w w'' where
  cwd := h'.cwd.trans h.cwd
  time := h'.time.trans h.time
  report := h'.report.trans h.report
  log := h'.log.trans h.log
  console := by rw [h'.console, h.console, List.append_assoc]
  bytes place := by rw [h'.bytes, h.bytes, List.append_assoc]
  holds place hplace := by
    rcases hplace with hholds | hopened
    · exact h'.holds place (.inl (h.holds place (.inl hholds)))
    · exact h'.holds place ((List.mem_append.1 hopened).imp_left fun hfirst =>
        h.holds place (.inr hfirst))
  others place hplace := by
    obtain ⟨hfirst, hrest⟩ := not_or.1 (mt List.mem_append.2 hplace)
    exact (h'.others place hrest).trans (h.others place hfirst)

theorem Gains.widen (h : Gains opened shown added w w') (hsub : opened ⊆ opened')
    (hholds : ∀ place ∈ opened', place ∈ opened ∨ w.tree.Holds place) :
    Gains opened' shown added w w' where
  cwd := h.cwd
  time := h.time
  report := h.report
  log := h.log
  console := h.console
  bytes := h.bytes
  holds place hplace := h.holds place (by
    rcases hplace with hplace | hplace
    · exact .inl hplace
    · exact (hholds place hplace).symm)
  others place hplace := h.others place fun hmem => hplace (hsub hmem)

theorem Gains.of_tree_eq (hcwd : w'.cwd = w.cwd) (htime : w'.time = w.time)
    (hreport : w'.report = w.report) (hlog : w'.log = w.log) (htree : w'.tree = w.tree)
    (hconsole : w'.console = w.console ++ shown) : Gains [] shown (fun _ => []) w w' where
  cwd := hcwd
  time := htime
  report := hreport
  log := hlog
  console := hconsole
  bytes _ := htree ▸ (List.append_nil _).symm
  holds _ hplace := htree ▸ hplace.elim id nofun
  others _ _ := by rw [htree]

theorem Gains.refl (w : Workspace) : Gains [] [] (fun _ => []) w w :=
  .of_tree_eq rfl rfl rfl rfl rfl (List.append_nil _).symm

theorem Gains.of_file {place : List Text} {bytes : Bytes} {tree : FileTree}
    (hfile : tree.entry? place = some (.file (w.tree.bytesAt place ++ bytes)))
    (hothers : ∀ q, q ≠ place → tree.entry? q = w.tree.entry? q) :
    Gains [place] [] (fun q => if place = q then bytes else []) w { w with tree := tree } where
  cwd := rfl
  time := rfl
  report := rfl
  log := rfl
  console := (List.append_nil _).symm
  bytes q := by
    by_cases hq : place = q
    · subst hq
      rw [FileTree.bytesAt_of_file hfile, if_pos rfl]
    · rw [FileTree.bytesAt_of_entry?_eq (hothers q (Ne.symm hq))]
      simp [hq]
  holds q hholds := by
    by_cases hq : q = place
    · exact hq ▸ ⟨_, hfile⟩
    · obtain ⟨bytes, hold⟩ := hholds.resolve_right (by simpa using hq)
      exact ⟨bytes, (hothers q hq).trans hold⟩
  others q hq := hothers q (by simpa using hq)

theorem gains_emit_console (w : Workspace) (r : LogRecord) (level : Level) :
    Gains [] r.consoleLine (fun _ => []) w (w.emit r ⟨.console, level⟩) :=
  .of_tree_eq rfl rfl rfl rfl rfl rfl

theorem gains_emit_file {place : List Text} (hholds : w.tree.Holds place) (r : LogRecord)
    (level : Level) :
    Gains [place] (w.lossOf r)
      (fun q => if place = q ∧ r.encodable w.time then r.fileBytes w.time else [])
      w (w.emit r ⟨.file place, level⟩) := by
  cases hencodable : r.encodable w.time with
  | true =>
      have hbytes := LogRecord.encode_fileLine hencodable
      have hloss : w.lossOf r = [] := by rw [lossOf, hbytes]
      have hemit : w.emit r ⟨.file place, level⟩ =
          { w with tree := w.tree.append place (r.fileBytes w.time) } := by
        simp only [emit, hbytes]
      rw [hloss, hemit]
      simpa using Gains.of_file (FileTree.entry?_append hholds (r.fileBytes w.time))
        fun q hq => FileTree.entry?_append_of_ne hq (r.fileBytes w.time)
  | false =>
      obtain ⟨e, hbytes⟩ := LogRecord.exists_encode_fileLine_eq_error hencodable
      have hloss : w.lossOf r = w.report r e := by rw [lossOf, hbytes]
      have hemit : w.emit r ⟨.file place, level⟩ =
          { w with console := w.console ++ w.report r e } := by simp only [emit, hbytes]
      have hshown : Gains [] (w.report r e) (fun _ => []) w
          { w with console := w.console ++ w.report r e } :=
        .of_tree_eq rfl rfl rfl rfl rfl rfl
      rw [hloss, hemit]
      simpa using hshown.widen (List.nil_subset [place]) fun q hq =>
        .inr (List.mem_singleton.1 hq ▸ hholds)

end Workspace

namespace LogSetting

open Workspace

/-- What the console shows of a record that is logged: its line, and behind it the report if the
log file loses the record. -/
def shows (s : LogSetting) (w : Workspace) (r : LogRecord) : Text :=
  if s.takes r then r.consoleLine ++ (if s.file.isSome then w.lossOf r else []) else []

/-- What a place is given of a record that is logged: its line, if the place is that of the log
file and the line has bytes. -/
def adds (s : LogSetting) (time : Text) (r : LogRecord) (place : List Text) : Bytes :=
  if s.takes r ∧ s.file = some place ∧ r.encodable time then r.fileBytes time else []

structure Serves (s : LogSetting) (w : Workspace) : Prop where
  logging : w.logging = some s.logging
  holds : ∀ place ∈ s.file.toList, w.tree.Holds place

variable {s : LogSetting} {w w' : Workspace}

theorem gains_handlers (hholds : ∀ place ∈ s.file.toList, w.tree.Holds place) {r : LogRecord}
    (taken : s.takes r = true) :
    Gains s.file.toList (s.shows w r) (s.adds w.time r) w
      (s.logging.handlers.foldl (emit r) w) := by
  have hconsole := gains_emit_console w r s.level
  unfold shows adds
  cases hfile : s.file with
  | none => simpa [logging, destinations, hfile, taken] using hconsole
  | some place =>
      have hplace : w.tree.Holds place := hholds place (by simp [hfile])
      have hboth := hconsole.trans (gains_emit_file (hconsole.holds place (.inl hplace)) r s.level)
      have hloss : (w.emit r ⟨.console, s.level⟩).lossOf r = w.lossOf r := rfl
      rw [hloss, hconsole.time] at hboth
      simpa [logging, destinations, hfile, taken] using hboth

theorem Serves.record (h : s.Serves w) (r : LogRecord) :
    s.Serves (w.record r) ∧ Gains s.file.toList (s.shows w r) (s.adds w.time r) w (w.record r) := by
  have hgains : Gains s.file.toList (s.shows w r) (s.adds w.time r) w (w.record r) := by
    rw [Workspace.record, h.logging]
    dsimp only
    rw [takers_eq]
    cases htakes : s.takes r with
    | true => exact gains_handlers h.holds htakes
    | false =>
        have hnothing := (Gains.refl w).widen (List.nil_subset s.file.toList) fun place hplace =>
          .inr (h.holds place hplace)
        unfold shows adds
        simpa [htakes] using hnothing
  exact ⟨⟨(alike_record w r).logging.trans h.logging, fun place hplace =>
    hgains.holds place (.inr hplace)⟩, hgains⟩

end LogSetting

/-! ## Any number of times -/

/-- The loggers are set up, or one of them logs. -/
inductive LogEvent where
  | configure (verbose : Bool) (file : Option Path)
  | log (part : Text) (level : Level) (message : Text)

namespace LogEvent

open Docsmith.Workspace

def run : LogEvent → Action Unit
  | configure verbose file => Action.configureLogging verbose file
  | log part level message => Action.logAs part level message

/-- The records that are logged, each with how loggers are set up at that time. -/
def logged (cwd : Path) : LogSetting → List LogEvent → List (LogSetting × LogRecord)
  | _, [] => []
  | _, configure verbose file :: es => logged cwd (.ofFlags cwd verbose file) es
  | s, log part level message :: es => (s, ⟨loggerName part, level, message⟩) :: logged cwd s es

def files (cwd : Path) : List LogEvent → List (List Text)
  | [] => []
  | configure verbose file :: es =>
      (LogSetting.ofFlags cwd verbose file).file.toList ++ files cwd es
  | log _ _ _ :: es => files cwd es

def shown (w : Workspace) (rs : List (LogSetting × LogRecord)) : Text :=
  rs.flatMap fun p => p.1.shows w p.2

/-- What a place is given of records, each once and in order. -/
def added (w : Workspace) (rs : List (LogSetting × LogRecord)) (place : List Text) : Bytes :=
  rs.flatMap fun p => p.1.adds w.time p.2 place

end LogEvent

end Docsmith
