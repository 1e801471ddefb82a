/-
The console lines of a run: `append_capped_line` of `crates/core/src/v8/console.rs`, the
buffers of `isolate.rs` with the warm-up lines of a cold start, and their way into the
early `Result`, the held output and the grace report.

* `fitted` — the lines that fit, one after the other;
* `kept_own` — a run keeps the lines of its own that fitted;
* `linesCarried_iff` — when its frames carry them all;
* `bounded_iff` — what the cap leaves unbounded is the number of empty lines;
* `console_caps` — the caps over run and grace.

The frames are the ones the runtime hands to its link; an early `Result` that the link
refuses is not among them.
-/
import Mathlib.Algebra.Order.BigOperators.Group.List
import Mathlib.Algebra.Order.Group.Nat
import Mathlib.Data.List.Flatten
import Iso4.Core
import Iso4.RuntimePayloads

namespace Iso4

namespace Console

open Wire

/-! ### Buffers -/

/-- A captured line.  The mark of a warm-up line is not in the source. -/
structure ConsoleLine where
  text : String
  warmUp : Bool

/-- `line.len()`. -/
def ConsoleLine.len (line : ConsoleLine) : Nat := (utf8 line.text).length

/-- The lines of one stream with their running total; a limit of zero is none. -/
structure StreamBuffer where
  lines : List ConsoleLine
  bytes : Nat
  limit : Nat

/-- Lines that would push the total over the cap are dropped. -/
def StreamBuffer.append (b : StreamBuffer) (line : ConsoleLine) : StreamBuffer :=
  if b.limit = 0 ∨ b.bytes + line.len ≤ b.limit then
    { b with bytes := b.bytes + line.len, lines := b.lines ++ [line] }
  else b

def StreamBuffer.clear (b : StreamBuffer) : StreamBuffer := { b with lines := [] }

structure LogBuffers where
  stdout : StreamBuffer
  stderr : StreamBuffer

namespace LogBuffers

def new (maxStdoutBytes maxStderrBytes : Nat) : LogBuffers :=
  ⟨⟨[], 0, maxStdoutBytes⟩, ⟨[], 0, maxStderrBytes⟩⟩

/-- `append_capped_line`. -/
def appendCappedLine (buffers : LogBuffers) (stdout : Bool) (line : ConsoleLine) : LogBuffers :=
  if stdout then { buffers with stdout := buffers.stdout.append line }
  else { buffers with stderr := buffers.stderr.append line }

def stream (buffers : LogBuffers) (stdout : Bool) : StreamBuffer :=
  if stdout then buffers.stdout else buffers.stderr

def write (buffers : LogBuffers) (warmUp : Bool) (calls : List (Bool × String)) : LogBuffers :=
  calls.foldl (fun buffers call => buffers.appendCappedLine call.1 ⟨call.2, warmUp⟩) buffers

end LogBuffers

/-- `setup_logs` after the prefix's warm-up: uncapped. -/
def setupLogs (warmUp : List (Bool × String)) : LogBuffers :=
  (LogBuffers.new 0 0).write true warmUp

/-- The buffers of a new run; a cold start delivers the warm-up lines and their bytes. -/
def entryLogs (maxStdoutBytes maxStderrBytes : Nat) (warmUp : List (Bool × String)) : LogBuffers :=
  let entry := LogBuffers.new maxStdoutBytes maxStderrBytes
  let setup := setupLogs warmUp
  { stdout := { entry.stdout with lines := setup.stdout.lines, bytes := setup.stdout.bytes }
    stderr := { entry.stderr with lines := setup.stderr.lines, bytes := setup.stderr.bytes } }

/-! ### A run -/

/-- The console calls of a run, `true` for stdout: those of its run phase and, where its value
leaves work behind, those of its grace phase with the link's answer to the early `Result`.
`ok` is whether it ends with a value. -/
structure ConsoleInput where
  maxStdoutBytes : Nat
  maxStderrBytes : Nat
  warmUp : List (Bool × String)
  runCalls : List (Bool × String)
  grace : Option (SendResult × List (Bool × String))
  ok : Bool

/-- The lines of a frame. -/
structure ConsoleFrame where
  stdout : List ConsoleLine
  stderr : List ConsoleLine

def ConsoleFrame.stream (f : ConsoleFrame) (stdout : Bool) : List ConsoleLine :=
  if stdout then f.stdout else f.stderr

def LogBuffers.frame (buffers : LogBuffers) : ConsoleFrame :=
  ⟨buffers.stdout.lines, buffers.stderr.lines⟩

/-- The hand-over of `build_output_and_maybe_grace`: the lines go, the totals stay. -/
def LogBuffers.handOver (buffers : LogBuffers) : LogBuffers :=
  ⟨buffers.stdout.clear, buffers.stderr.clear⟩

namespace ConsoleInput

def runLogs (i : ConsoleInput) : LogBuffers :=
  (entryLogs i.maxStdoutBytes i.maxStderrBytes i.warmUp).write false i.runCalls

/-- The frames of the run.  A refused early `Result` leaves the run's lines with the held
output, which is sent alone; a failure reports what the buffers hold. -/
def frames (i : ConsoleInput) : List ConsoleFrame :=
  match i.grace with
  | none => [i.runLogs.frame]
  | some (answer, calls) =>
    let held := i.runLogs.frame
    let logs := i.runLogs.handOver.write false calls
    if answer = .ok then [held, logs.frame] else if i.ok then [held] else [logs.frame]

/-- What the runtime holds at the end: the held output's lines and the buffers'. -/
def held (i : ConsoleInput) : List ConsoleFrame :=
  match i.grace with
  | none => [i.runLogs.frame]
  | some (_, calls) => [i.runLogs.frame, (i.runLogs.handOver.write false calls).frame]

def own (stdout : Bool) (frames : List ConsoleFrame) : List ConsoleLine :=
  (frames.flatMap fun f => f.stream stdout).filter fun line => !line.warmUp

/-- The lines of its own that the run keeps. -/
def keptOwn (i : ConsoleInput) (stdout : Bool) : List ConsoleLine := own stdout i.held

/-- The lines of its own that its frames carry. -/
def sentOwn (i : ConsoleInput) (stdout : Bool) : List ConsoleLine := own stdout i.frames

def cap (i : ConsoleInput) (stdout : Bool) : Nat :=
  if stdout then i.maxStdoutBytes else i.maxStderrBytes

/-- A line in memory: its header and its text. -/
def heldBytes (i : ConsoleInput) (stdout : Bool) : Nat :=
  ((i.keptOwn stdout).map fun line => 24 + line.len).sum

/-- A line on the wire. -/
def encodedBytes (i : ConsoleInput) (stdout : Bool) : Nat :=
  ((i.sentOwn stdout).map fun line => (Ipc.RuntimeWriter.encodeString line.text).length).sum

end ConsoleInput

/-! ### What was written, and what fitted -/

/-- The lines written to a stream. -/
def written (stdout : Bool) (calls : List (Bool × String)) : List String :=
  (calls.filter fun call => call.1 = stdout).map Prod.snd

def total (lines : List String) : Nat := (lines.map fun line => (utf8 line).length).sum

/-- The lines that fit a cap of which `used` bytes are taken, each as it is written. -/
def fitted (cap : Nat) : Nat → List String → List String
  | _, [] => []
  | used, line :: rest =>
    if used + (utf8 line).length ≤ cap then
      line :: fitted cap (used + (utf8 line).length) rest
    else fitted cap used rest

/-- What the warm-up took of the cap before the run began. -/
def ConsoleInput.warmUpBytes (i : ConsoleInput) (stdout : Bool) : Nat :=
  total (written stdout i.warmUp)

def ConsoleInput.graceCalls (i : ConsoleInput) : List (Bool × String) :=
  match i.grace with
  | none => []
  | some (_, calls) => calls

/-- The lines of the run that fitted when they were written. -/
def ConsoleInput.fittedLines (i : ConsoleInput) (stdout : Bool) : List String :=
  fitted (i.cap stdout) (i.warmUpBytes stdout) (written stdout (i.runCalls ++ i.graceCalls))

/-- Those of the run phase. -/
def ConsoleInput.fittedInRun (i : ConsoleInput) (stdout : Bool) : List String :=
  fitted (i.cap stdout) (i.warmUpBytes stdout) (written stdout i.runCalls)

/-- Those of the grace phase. -/
def ConsoleInput.fittedInGrace (i : ConsoleInput) (stdout : Bool) : List String :=
  fitted (i.cap stdout) (i.warmUpBytes stdout + total (i.fittedInRun stdout))
    (written stdout i.graceCalls)

@[simp] theorem total_nil : total [] = 0 := rfl

@[simp] theorem total_cons (line : String) (lines : List String) :
    total (line :: lines) = (utf8 line).length + total lines := by
  simp [total]

theorem written_append (stdout : Bool) (calls more : List (Bool × String)) :
    written stdout (calls ++ more) = written stdout calls ++ written stdout more := by
  simp [written]

theorem fitted_append (cap used : Nat) (lines more : List String) :
    fitted cap used (lines ++ more) =
      fitted cap used lines ++ fitted cap (used + total (fitted cap used lines)) more := by
  induction lines generalizing used with
  | nil => simp [fitted]
  | cons line lines ih =>
    simp only [List.cons_append, fitted]
    split
    · rw [ih, total_cons, Nat.add_assoc, List.cons_append]
    · exact ih used

/-- Lines fit up to the cap. -/
theorem total_fitted (cap used : Nat) (lines : List String) :
    total (fitted cap used lines) ≤ cap - used := by
  induction lines generalizing used with
  | nil => simp [fitted]
  | cons line lines ih =>
    unfold fitted
    split
    · have := ih (used + (utf8 line).length)
      rw [total_cons]
      omega
    · exact ih used

/-- Nothing fits a cap that the warm-up has passed. -/
theorem fitted_full {cap used : Nat} (h : cap < used) (lines : List String) :
    fitted cap used lines = [] := by
  induction lines with
  | nil => rfl
  | cons line lines ih =>
    have hfull : ¬ used + (utf8 line).length ≤ cap := by omega
    rw [fitted, if_neg hfull, ih]

theorem ConsoleInput.fittedLines_eq (i : ConsoleInput) (stdout : Bool) :
    i.fittedLines stdout = i.fittedInRun stdout ++ i.fittedInGrace stdout := by
  rw [fittedLines, written_append, fitted_append]
  rfl

/-! ### The buffers keep what fitted -/

def ownLine (text : String) : ConsoleLine := ⟨text, false⟩

def warmUpLine (text : String) : ConsoleLine := ⟨text, true⟩

theorem LogBuffers.stream_append (buffers : LogBuffers) (stdout call : Bool) (line : ConsoleLine) :
    (buffers.appendCappedLine call line).stream stdout =
      if call = stdout then (buffers.stream stdout).append line else buffers.stream stdout := by
  cases call <;> cases stdout <;> rfl

theorem LogBuffers.stream_write (buffers : LogBuffers) (warmUp stdout : Bool)
    (calls : List (Bool × String)) :
    (buffers.write warmUp calls).stream stdout =
      (written stdout calls).foldl (fun b text => b.append ⟨text, warmUp⟩)
        (buffers.stream stdout) := by
  unfold LogBuffers.write written
  induction calls generalizing buffers with
  | nil => rfl
  | cons call calls ih =>
    rw [List.foldl_cons, ih, LogBuffers.stream_append]
    by_cases hto : call.1 = stdout
    · simp [hto]
    · simp [hto]

/-- Under a cap a buffer takes the lines that fit. -/
theorem StreamBuffer.foldl_capped (b : StreamBuffer) (hcap : 0 < b.limit) (texts : List String) :
    texts.foldl (fun b text => b.append ⟨text, false⟩) b =
      ⟨b.lines ++ (fitted b.limit b.bytes texts).map ownLine,
        b.bytes + total (fitted b.limit b.bytes texts), b.limit⟩ := by
  induction texts generalizing b with
  | nil => simp [fitted]
  | cons text texts ih =>
    have hzero : b.limit ≠ 0 := by omega
    rw [List.foldl_cons]
    by_cases hfits : b.bytes + (utf8 text).length ≤ b.limit
    · have happend : b.append ⟨text, false⟩ =
          ⟨b.lines ++ [ownLine text], b.bytes + (utf8 text).length, b.limit⟩ :=
        if_pos (Or.inr hfits)
      rw [happend, ih ⟨b.lines ++ [ownLine text], b.bytes + (utf8 text).length, b.limit⟩ hcap]
      simp [fitted, hfits, Nat.add_assoc]
    · have happend : b.append ⟨text, false⟩ = b := by
        refine if_neg ?_
        rintro (h | h)
        · exact hzero h
        · exact hfits h
      rw [happend, ih b hcap]
      simp [fitted, hfits]

/-- Without one it takes them all. -/
theorem StreamBuffer.foldl_uncapped (b : StreamBuffer) (hcap : b.limit = 0)
    (texts : List String) :
    texts.foldl (fun b text => b.append ⟨text, true⟩) b =
      ⟨b.lines ++ texts.map warmUpLine, b.bytes + total texts, 0⟩ := by
  induction texts generalizing b with
  | nil =>
    obtain ⟨lines, bytes, limit⟩ := b
    obtain rfl : limit = 0 := hcap
    simp
  | cons text texts ih =>
    have happend : b.append ⟨text, true⟩ =
        ⟨b.lines ++ [warmUpLine text], b.bytes + (utf8 text).length, b.limit⟩ :=
      if_pos (Or.inl hcap)
    rw [List.foldl_cons, happend,
      ih ⟨b.lines ++ [warmUpLine text], b.bytes + (utf8 text).length, b.limit⟩ hcap]
    simp [Nat.add_assoc]

namespace ConsoleInput

variable {i : ConsoleInput} {stdout : Bool}

theorem entry_stream (i : ConsoleInput) (stdout : Bool) :
    (entryLogs i.maxStdoutBytes i.maxStderrBytes i.warmUp).stream stdout =
      ⟨(written stdout i.warmUp).map warmUpLine, i.warmUpBytes stdout, i.cap stdout⟩ := by
  have hsetup : ∀ stdout, (setupLogs i.warmUp).stream stdout =
      ⟨(written stdout i.warmUp).map warmUpLine, i.warmUpBytes stdout, 0⟩ := by
    intro stdout
    rw [setupLogs, LogBuffers.stream_write, StreamBuffer.foldl_uncapped _ (by cases stdout <;> rfl)]
    cases stdout <;> simp [LogBuffers.new, LogBuffers.stream, warmUpBytes]
  cases stdout with
  | true =>
    have h := hsetup true
    simp only [LogBuffers.stream, if_true] at h
    simp [entryLogs, LogBuffers.stream, LogBuffers.new, h, cap]
  | false =>
    have h := hsetup false
    simp only [LogBuffers.stream, Bool.false_eq_true, if_false] at h
    simp [entryLogs, LogBuffers.stream, LogBuffers.new, h, cap]

theorem runLogs_stream (hcap : 0 < i.cap stdout) :
    i.runLogs.stream stdout =
      ⟨(written stdout i.warmUp).map warmUpLine ++ (i.fittedInRun stdout).map ownLine,
        i.warmUpBytes stdout + total (i.fittedInRun stdout), i.cap stdout⟩ := by
  rw [runLogs, LogBuffers.stream_write, entry_stream, StreamBuffer.foldl_capped _ hcap]
  rfl

theorem graceLogs_stream (hcap : 0 < i.cap stdout) (calls : List (Bool × String)) :
    ((i.runLogs.handOver.write false calls).stream stdout).lines =
      (fitted (i.cap stdout) (i.warmUpBytes stdout + total (i.fittedInRun stdout))
        (written stdout calls)).map ownLine := by
  have hclear : i.runLogs.handOver.stream stdout = (i.runLogs.stream stdout).clear := by
    cases stdout <;> rfl
  rw [LogBuffers.stream_write, hclear, runLogs_stream hcap]
  have hfold := StreamBuffer.foldl_capped
    ⟨[], i.warmUpBytes stdout + total (i.fittedInRun stdout), i.cap stdout⟩ hcap
    (written stdout calls)
  exact congrArg StreamBuffer.lines hfold

theorem frame_stream (buffers : LogBuffers) (stdout : Bool) :
    buffers.frame.stream stdout = (buffers.stream stdout).lines := by
  cases stdout <;> rfl

theorem filter_own (texts : List String) :
    (texts.map ownLine).filter (fun line => !line.warmUp) = texts.map ownLine := by
  rw [List.filter_eq_self]
  intro line hline
  obtain ⟨text, -, rfl⟩ := List.mem_map.mp hline
  rfl

theorem filter_warmUp (texts : List String) :
    (texts.map warmUpLine).filter (fun line => !line.warmUp) = [] := by
  rw [List.filter_eq_nil_iff]
  intro line hline
  obtain ⟨text, -, rfl⟩ := List.mem_map.mp hline
  simp [warmUpLine]

theorem own_nil (stdout : Bool) : own stdout [] = [] := rfl

theorem own_cons (stdout : Bool) (f : ConsoleFrame) (frames : List ConsoleFrame) :
    own stdout (f :: frames) =
      (f.stream stdout).filter (fun line => !line.warmUp) ++ own stdout frames := by
  rw [own, List.flatMap_cons, List.filter_append]
  rfl

theorem own_runFrame (hcap : 0 < i.cap stdout) :
    (i.runLogs.frame.stream stdout).filter (fun line => !line.warmUp) =
      (i.fittedInRun stdout).map ownLine := by
  rw [frame_stream, runLogs_stream hcap, List.filter_append, filter_warmUp, filter_own,
    List.nil_append]

theorem own_graceFrame (hcap : 0 < i.cap stdout) {answer : SendResult}
    {calls : List (Bool × String)} (h : i.grace = some (answer, calls)) :
    ((i.runLogs.handOver.write false calls).frame.stream stdout).filter
        (fun line => !line.warmUp) =
      (i.fittedInGrace stdout).map ownLine := by
  rw [frame_stream, graceLogs_stream hcap, filter_own, fittedInGrace, graceCalls, h]

theorem fittedInGrace_none (h : i.grace = none) : i.fittedInGrace stdout = [] := by
  rw [fittedInGrace, graceCalls, h]
  rfl

/-- The run keeps the lines that fitted when they were written. -/
theorem kept_own (hcap : 0 < i.cap stdout) :
    i.keptOwn stdout = (i.fittedLines stdout).map ownLine := by
  rw [fittedLines_eq, List.map_append, keptOwn, held]
  cases hgrace : i.grace with
  | none =>
    rw [own_cons, own_runFrame hcap, fittedInGrace_none hgrace]
    rfl
  | some p =>
    rw [own_cons, own_cons, own_runFrame hcap, own_graceFrame hcap hgrace, own_nil,
      List.append_nil]

/-- The frames carry every line that fitted where the early `Result` was not refused, or where
the phase they leave out kept none. -/
def LinesCarried (i : ConsoleInput) (stdout : Bool) : Prop :=
  ∀ answer calls, i.grace = some (answer, calls) → answer ≠ .ok →
    if i.ok then i.fittedInGrace stdout = [] else i.fittedInRun stdout = []

theorem linesCarried_iff (hcap : 0 < i.cap stdout) :
    i.sentOwn stdout = (i.fittedLines stdout).map ownLine ↔ i.LinesCarried stdout := by
  rw [fittedLines_eq, List.map_append, sentOwn, frames, LinesCarried]
  cases hgrace : i.grace with
  | none =>
    rw [own_cons, own_runFrame hcap, fittedInGrace_none hgrace]
    simp [own_nil]
  | some p =>
    obtain ⟨answer, calls⟩ := p
    have hgraceFrame := @own_graceFrame i stdout hcap answer calls hgrace
    by_cases hanswer : answer = .ok
    · simp [hanswer, own_cons, own_nil, own_runFrame hcap, hgraceFrame]
    · cases hok : i.ok with
      | true => simp [hanswer, own_cons, own_nil, own_runFrame hcap]
      | false => simp [hanswer, own_cons, own_nil, hgraceFrame]

/-- A frame of the run is one of the parts it holds, and no part is in two frames. -/
theorem frames_sublist (i : ConsoleInput) : i.frames.Sublist i.held := by
  unfold frames held
  split
  · exact List.Sublist.refl _
  · dsimp only
    split
    · exact List.Sublist.refl _
    · split
      · exact (List.nil_sublist _).cons_cons _
      · exact List.sublist_cons_self _ _

theorem held_lines (hcap : 0 < i.cap stdout) :
    i.held.flatMap (fun f => f.stream stdout) =
      (written stdout i.warmUp).map warmUpLine ++ (i.fittedLines stdout).map ownLine := by
  rw [fittedLines_eq, List.map_append, held]
  cases hgrace : i.grace with
  | none =>
    simp [frame_stream, runLogs_stream hcap, fittedInGrace_none hgrace]
  | some p =>
    have hlines : i.graceCalls = p.2 := by
      rw [graceCalls, hgrace]
    simp [frame_stream, runLogs_stream hcap, graceLogs_stream hcap, fittedInGrace, hlines]

/-! ### Sizes -/

/-- The empty lines that find the cap not passed: each is kept and takes nothing of it. -/
def emptyLines (i : ConsoleInput) (stdout : Bool) : Nat :=
  if i.warmUpBytes stdout ≤ i.cap stdout then
    (written stdout (i.runCalls ++ i.graceCalls)).count ""
  else 0

end ConsoleInput

theorem utf8_eq_nil_iff (s : String) : (utf8 s).length = 0 ↔ s = "" :=
  String.utf8ByteSize_eq_zero_iff

theorem count_fitted {cap used : Nat} (h : used ≤ cap) (lines : List String) :
    (fitted cap used lines).count "" = lines.count "" := by
  induction lines generalizing used with
  | nil => rfl
  | cons line lines ih =>
    unfold fitted
    split
    · rename_i hfits
      rw [List.count_cons, List.count_cons, ih hfits]
    · rename_i hfull
      have hline : line ≠ "" := by
        rintro rfl
        rw [(utf8_eq_nil_iff "").mpr rfl] at hfull
        omega
      rw [List.count_cons_of_ne hline, ih h]

/-- Every line that is not empty takes a byte. -/
theorem length_le_count (lines : List String) : lines.length ≤ lines.count "" + total lines := by
  induction lines with
  | nil => simp
  | cons line lines ih =>
    rw [List.length_cons, total_cons]
    by_cases hline : line = ""
    · subst hline
      rw [List.count_cons_self]
      omega
    · have hpos : (utf8 line).length ≠ 0 := fun h => hline ((utf8_eq_nil_iff line).mp h)
      rw [List.count_cons_of_ne hline]
      omega

namespace ConsoleInput

variable {i : ConsoleInput} {stdout : Bool}

theorem count_fittedLines (i : ConsoleInput) (stdout : Bool) :
    (i.fittedLines stdout).count "" = i.emptyLines stdout := by
  unfold fittedLines emptyLines
  split
  · rename_i h
    exact count_fitted h _
  · rename_i h
    rw [fitted_full (by omega)]
    rfl

theorem heldBytes_eq (hcap : 0 < i.cap stdout) :
    i.heldBytes stdout =
      24 * (i.fittedLines stdout).length + total (i.fittedLines stdout) := by
  rw [heldBytes, kept_own hcap, List.map_map]
  induction i.fittedLines stdout with
  | nil => rfl
  | cons line lines ih =>
    rw [List.map_cons, List.sum_cons, ih, List.length_cons, total_cons]
    simp only [Function.comp_apply, ConsoleLine.len, ownLine]
    omega

/-- A line on the wire is no longer than in memory, and no line is sent that is not held. -/
theorem encodedBytes_le (i : ConsoleInput) (stdout : Bool) :
    i.encodedBytes stdout ≤ i.heldBytes stdout := by
  have hsub : (i.sentOwn stdout).Sublist (i.keptOwn stdout) :=
    (i.frames_sublist.flatMap _).filter _
  have hline : ∀ line : ConsoleLine,
      (Ipc.RuntimeWriter.encodeString line.text).length ≤ 24 + line.len := by
    intro line
    rw [Ipc.RuntimeWriter.encodeString, List.length_append, u32be_length, ConsoleLine.len]
    omega
  unfold encodedBytes heldBytes
  exact (List.sum_le_sum fun line _ => hline line).trans
    ((hsub.map _).sum_le_sum fun _ _ => Nat.zero_le _)

/-- The sum of the lengths of the lines sent. -/
theorem sent_total (hcap : 0 < i.cap stdout) :
    ((i.sentOwn stdout).map ConsoleLine.len).sum ≤ i.cap stdout := by
  have hsub : (i.sentOwn stdout).Sublist (i.keptOwn stdout) :=
    (i.frames_sublist.flatMap _).filter _
  have htotal := total_fitted (i.cap stdout) (i.warmUpBytes stdout)
    (written stdout (i.runCalls ++ i.graceCalls))
  have hkept : ((i.keptOwn stdout).map ConsoleLine.len).sum = total (i.fittedLines stdout) := by
    rw [kept_own hcap, List.map_map]
    rfl
  calc ((i.sentOwn stdout).map ConsoleLine.len).sum
      ≤ ((i.keptOwn stdout).map ConsoleLine.len).sum :=
        (hsub.map _).sum_le_sum fun _ _ => Nat.zero_le _
    _ = total (i.fittedLines stdout) := hkept
    _ ≤ i.cap stdout := htotal.trans (Nat.sub_le _ _)

/-- What a run holds is at most a multiple of its cap and its empty lines. -/
theorem heldBytes_le (hcap : 0 < i.cap stdout) :
    i.heldBytes stdout ≤ 24 * i.emptyLines stdout + 25 * i.cap stdout := by
  have hlength := length_le_count (i.fittedLines stdout)
  have htotal : total (i.fittedLines stdout) ≤ i.cap stdout :=
    (total_fitted _ _ _).trans (Nat.sub_le _ _)
  rw [count_fittedLines] at hlength
  rw [heldBytes_eq hcap]
  omega

theorem emptyLines_le (hcap : 0 < i.cap stdout) : i.emptyLines stdout ≤ i.heldBytes stdout := by
  have hcount : (i.fittedLines stdout).count "" ≤ (i.fittedLines stdout).length :=
    List.count_le_length
  rw [count_fittedLines] at hcount
  rw [heldBytes_eq hcap]
  omega

end ConsoleInput

/-- Over any runs with caps, what is held and sent stays within a constant multiple of the caps
exactly when the number of empty lines does. -/
theorem bounded_iff (S : ConsoleInput → Prop)
    (hcaps : ∀ i, S i → ∀ stdout, 0 < i.cap stdout) :
    (∃ k, ∀ i, S i → ∀ stdout, i.heldBytes stdout ≤ k * i.cap stdout ∧
        i.encodedBytes stdout ≤ k * i.cap stdout) ↔
      ∃ k, ∀ i, S i → ∀ stdout, i.emptyLines stdout ≤ k * i.cap stdout := by
  constructor
  · rintro ⟨k, hk⟩
    refine ⟨k, fun i hi stdout => ?_⟩
    exact (ConsoleInput.emptyLines_le (hcaps i hi stdout)).trans (hk i hi stdout).1
  · rintro ⟨k, hk⟩
    refine ⟨24 * k + 25, fun i hi stdout => ?_⟩
    have hheld : i.heldBytes stdout ≤ (24 * k + 25) * i.cap stdout :=
      calc i.heldBytes stdout
          ≤ 24 * i.emptyLines stdout + 25 * i.cap stdout :=
            ConsoleInput.heldBytes_le (hcaps i hi stdout)
        _ ≤ 24 * (k * i.cap stdout) + 25 * i.cap stdout :=
            Nat.add_le_add_right (Nat.mul_le_mul_left _ (hk i hi stdout)) _
        _ = (24 * k + 25) * i.cap stdout := by rw [Nat.add_mul, Nat.mul_assoc]
    exact ⟨hheld, (i.encodedBytes_le stdout).trans hheld⟩

/-- For every run with caps and both streams: what it keeps of its own lines is what fitted when
it was written; the lengths of those it sends add up to the cap at most; of the warm-up lines and
its own each is in one frame at most; and its frames carry all it keeps unless a refused early
`Result` makes them leave a phase out that kept some.  What it holds and sends is bounded by a
multiple of the caps over exactly the runs whose empty lines are. -/
theorem console_caps (S : ConsoleInput → Prop)
    (hcaps : ∀ i, S i → ∀ stdout, 0 < i.cap stdout) :
    (∀ i, S i → ∀ stdout,
      i.keptOwn stdout = (i.fittedLines stdout).map ownLine ∧
      ((i.sentOwn stdout).map ConsoleLine.len).sum ≤ i.cap stdout ∧
      (i.frames.flatMap fun f => f.stream stdout).Sublist
        ((written stdout i.warmUp).map warmUpLine ++ (i.fittedLines stdout).map ownLine) ∧
      (i.sentOwn stdout = (i.fittedLines stdout).map ownLine ↔ i.LinesCarried stdout)) ∧
    ((∃ k, ∀ i, S i → ∀ stdout, i.heldBytes stdout ≤ k * i.cap stdout ∧
        i.encodedBytes stdout ≤ k * i.cap stdout) ↔
      ∃ k, ∀ i, S i → ∀ stdout, i.emptyLines stdout ≤ k * i.cap stdout) := by
  refine ⟨fun i hi stdout => ?_, bounded_iff S hcaps⟩
  have hcap := hcaps i hi stdout
  refine ⟨ConsoleInput.kept_own hcap, ConsoleInput.sent_total hcap, ?_,
    ConsoleInput.linesCarried_iff hcap⟩
  rw [← ConsoleInput.held_lines hcap]
  exact i.frames_sublist.flatMap _

/-- One run: two lines, of which the second does not fit, and one of its grace phase. -/
theorem console_caps_one :
    let i : ConsoleInput :=
      ⟨4, 4, [], [(true, "abc"), (true, "de")], some (.ok, [(true, "f")]), true⟩
    i.keptOwn true = (i.fittedLines true).map ownLine :=
  ((console_caps (fun i => i.maxStdoutBytes = 4 ∧ i.maxStderrBytes = 4)
    (fun i hi stdout => by cases stdout <;> simp [ConsoleInput.cap, hi.1, hi.2])).1 _
      ⟨rfl, rfl⟩ true).1

/-- The cap bounds neither memory nor frame: empty lines are kept without end. -/
theorem empty_lines_unbounded :
    ¬ ∃ k, ∀ i : ConsoleInput, (∀ stdout, 0 < i.cap stdout) → ∀ stdout,
      i.heldBytes stdout ≤ k * i.cap stdout ∧ i.encodedBytes stdout ≤ k * i.cap stdout := by
  rintro ⟨k, hk⟩
  let i : ConsoleInput := ⟨1, 1, [], List.replicate (k + 1) (true, ""), none, true⟩
  have hcaps : ∀ stdout, 0 < i.cap stdout := by
    intro stdout
    cases stdout <;> simp [ConsoleInput.cap, i]
  have hheld := (hk i hcaps true).1
  have hempty := ConsoleInput.emptyLines_le (hcaps true)
  have hcount : i.emptyLines true = k + 1 := by
    simp [ConsoleInput.emptyLines, ConsoleInput.warmUpBytes, ConsoleInput.graceCalls, written, i]
  have hone : i.cap true = 1 := rfl
  rw [hcount] at hempty
  rw [hone] at hheld
  omega

end Console

end Iso4
