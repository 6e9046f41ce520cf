import BoostProcess.Library.Decimal
import BoostProcess.Library.Delimited
import BoostProcess.Library.Pieces
import BoostProcess.V2.ErrorCode

/-! all_pids, parent_pid and child_pids on Linux, which read /proc.

A line of stat is cut at its blanks, and the second field of the line is the name of the
command, which may hold blanks itself.
-/

set_option autoImplicit false

namespace BoostProcess.V2.Pid

open Decimal Delimited Pieces

/-- What the system answers. -/
structure ProcFs where
  /-- The names that readdir gives for /proc. -/
  names : Except Errno (List (List UInt8))
  /-- What is in `/proc/%d/stat`. -/
  stat : Int → Except Errno (List UInt8)
  /-- `BUFSIZ` -/
  bufsiz : Nat
  /-- What is in the buffer of parent_pid before the file is read. -/
  buffer : Int → List UInt8
  lastError : Int

/-- `strtok(p, " ")`: the token and where the next call goes on, or a null pointer; none outside if
the buffer ends first. -/
def strtok (p : List UInt8) : Option (Option (List UInt8 × List UInt8)) :=
  match p.dropWhile (· = 32) with
  | [] => none
  | c :: rest =>
    if c = 0 then some none
    else
      let token := (c :: rest).takeWhile fun c => c ≠ 32 ∧ c ≠ 0
      match (c :: rest).dropWhile fun c => c ≠ 32 ∧ c ≠ 0 with
      | [] => none
      | ended :: behind => some (some (token, if ended = 0 then ended :: behind else behind))

/-- One call of strtok in the condition of the one before. -/
def nthToken : Nat → List UInt8 → Option (Option (List UInt8 × List UInt8))
  | 0, p => strtok p
  | n + 1, p => (strtok p).bind fun token =>
    match token with
    | none => some none
    | some (_, rest) => nthToken n rest

/-- `(pid_type)strtoul(token, nullptr, 10)` -/
def toPid (token : List UInt8) : Int := toInt (strtoul token)

namespace ProcFs

def allPids (fs : ProcFs) (ec : ErrorCode) : List Int × ErrorCode :=
  match fs.names with
  | .error errno => ([], .system errno.code)
  | .ok names => ((names.filter fun name => isDigit (name.getD 0 0)).map atoi, ec)

/-- `parent_pid(pid, ec)`; none if it reads behind its buffer. -/
def parentPid (fs : ProcFs) (pid : Int) (ec : ErrorCode) : Option (Int × ErrorCode) :=
  match fs.stat pid with
  | .error errno => some (-1, if errno = .ENOENT then .system Errno.ESRCH.code else .system errno.code)
  | .ok content =>
    let size := min fs.bufsiz content.length
    let buffer := content.take size ++ (fs.buffer pid).drop size
    if size = 0 then some (-1, ec)
    else (nthToken 3 buffer).map fun token =>
      match token with
      | none => (-1, .system fs.lastError)
      | some (token, _) => (toPid token, ec)

/-- The body of the loop of child_pids. -/
def childPid (fs : ProcFs) (pid : Int) (found : List Int × ErrorCode) (candidate : Int) : Option (List Int × ErrorCode) :=
  (fs.parentPid candidate found.2).map fun (ppid, ec) =>
    if ppid ≠ -1 ∧ ppid = pid then (found.1 ++ [candidate], ec)
    else if ec.value = Errno.ESRCH.code then (found.1, .clear)
    else (found.1, ec)

def childPids (fs : ProcFs) (pid : Int) (ec : ErrorCode) : Option (List Int × ErrorCode) :=
  let (pids, ec) := fs.allPids ec
  pids.foldlM (fs.childPid pid) ([], ec)

end ProcFs

/-! ## Processes -/

/-- A process, and what its line has behind the fourth field. -/
structure Process where
  pid : Nat
  comm : List UInt8
  state : UInt8
  ppid : Nat
  rest : List UInt8
  pid_lt : pid < 2 ^ 31
  ppid_lt : ppid < 2 ^ 31
  short : comm.length ≤ 15
  free : 0 ∉ comm
  letter : 65 ≤ state.toNat ∧ state.toNat ≤ 122

namespace Process

/-- The name of the command in its parentheses. -/
def field (process : Process) : List UInt8 := 40 :: process.comm ++ [41]

/-- The line up to the parent. -/
def front (process : Process) : List UInt8 :=
  text process.pid ++ 32 :: (process.field ++ 32 :: ([process.state] ++ 32 :: text process.ppid))

/-- `pid (comm) state ppid ...` -/
def line (process : Process) : List UInt8 := process.front ++ 32 :: process.rest

end Process

/-- The words of a text. -/
def wordsOf (text : List UInt8) : List (List UInt8) := words (text.splitOn 32)

/-- The fourth word of the line is the parent or, with a blank in the name of the command, reads as
the same number by chance: the state as 0, or the third word of the name. -/
inductive Readable (process : Process) : Prop
  | plain : 32 ∉ process.comm → Readable process
  | state {first second : List UInt8} : wordsOf process.field = [first, second] → process.ppid = 0 → Readable process
  | third {first second third : List UInt8} {others : List (List UInt8)} :
    wordsOf process.field = first :: second :: third :: others → toPid third = process.ppid → Readable process

/-- /proc, as it shows the processes. -/
structure ProcTable where
  processes : List Process
  distinct : (processes.map Process.pid).Nodup
  fs : ProcFs
  names : List (List UInt8)
  opened : fs.names = .ok names
  listed : (names.filter fun name => isDigit (name.getD 0 0)) = processes.map fun process => text process.pid
  stats : ∀ process ∈ processes, fs.stat process.pid = .ok process.line
  room : 64 ≤ fs.bufsiz

/-- The processes with a parent. -/
def ProcTable.childrenOf (table : ProcTable) (parent : Int) : List Int :=
  (table.processes.filter fun process => process.ppid = parent).map fun process => (process.pid : Int)

/-! ## Words -/

theorem wordsOf_append (first second : List UInt8) : wordsOf (first ++ 32 :: second) = wordsOf first ++ wordsOf second := by
  rw [wordsOf, List.splitOn_append_cons_self, words, List.filter_append]
  rfl

theorem wordsOf_word {word : List UInt8} (filled : word ≠ []) (plain : 32 ∉ word) : wordsOf word = [word] := by
  rw [wordsOf, List.splitOn_eq_singleton plain]
  exact words_cons filled []

theorem wordsOf_nil : wordsOf [] = [] := by
  simp [wordsOf, words]

theorem wordsOf_ne_nil {text : List UInt8} {c : UInt8} (char : c ≠ 32) (member : c ∈ text) : wordsOf text ≠ [] := by
  induction text using Delimited.induction (32 : UInt8) with
  | last text plain =>
    rw [wordsOf_word (List.ne_nil_of_mem member) plain]
    exact List.cons_ne_nil _ _
  | behind front rest plain ih =>
    rw [wordsOf_append]
    by_cases empty : front = []
    · have later : c ∈ rest := by simpa [empty, char] using member
      rw [empty, wordsOf_nil, List.nil_append]
      exact ih later
    · rw [wordsOf_word empty plain]
      exact List.cons_ne_nil _ _

/-- The field of a name without blanks is one word; otherwise it is two or more. -/
theorem wordsOf_field (process : Process) :
    (32 ∉ process.comm ∧ wordsOf process.field = [process.field]) ∨
      ∃ first second others, wordsOf process.field = first :: second :: others ∧ 32 ∈ process.comm := by
  rcases Delimited.cases 32 process.comm with plain | ⟨front, rest, split, plain⟩
  · refine .inl ⟨plain, wordsOf_word (by simp [Process.field]) ?_⟩
    simpa [Process.field] using plain
  · have parts : process.field = (40 :: front) ++ 32 :: (rest ++ 41 :: []) := by simp [Process.field, split]
    have first_word : wordsOf (40 :: front) = [40 :: front] := wordsOf_word (List.cons_ne_nil _ _) (by simpa using plain)
    have closing : wordsOf (rest ++ [41]) ≠ [] := @wordsOf_ne_nil _ 41 (by decide) (by simp)
    obtain ⟨second, others, more⟩ := List.exists_cons_of_ne_nil closing
    refine .inr ⟨40 :: front, second, others, ?_, by simp [split]⟩
    rw [parts, wordsOf_append, first_word, more]
    rfl

/-! ## Tokens -/

theorem strtok_blank (p : List UInt8) : strtok (32 :: p) = strtok p := rfl

/-- A word in front of a blank is a token, and the next call goes on behind the blank. -/
theorem strtok_word {word : List UInt8} (filled : word ≠ []) (plain : 32 ∉ word) (free : 0 ∉ word) (behind : List UInt8) :
    strtok (word ++ 32 :: behind) = some (some (word, behind)) := by
  obtain ⟨c, rest, split⟩ := List.exists_cons_of_ne_nil filled
  have chars : ∀ other ∈ word, decide (other ≠ 32 ∧ other ≠ 0) = true := by
    intro other member
    exact decide_eq_true ⟨fun same => plain (same ▸ member), fun same => free (same ▸ member)⟩
  have whole : c :: (rest ++ 32 :: behind) = word ++ 32 :: behind := by rw [split]; rfl
  have taken : (c :: (rest ++ 32 :: behind)).takeWhile (fun c => c ≠ 32 ∧ c ≠ 0) = word := by
    rw [whole, List.takeWhile_append_of_pos chars]
    simp
  have dropped : (c :: (rest ++ 32 :: behind)).dropWhile (fun c => c ≠ 32 ∧ c ≠ 0) = 32 :: behind := by
    rw [whole, List.dropWhile_append_of_pos chars]
    simp
  have first := of_decide_eq_true (chars c (by rw [split]; exact List.mem_cons_self))
  have started : (word ++ 32 :: behind).dropWhile (· = 32) = c :: (rest ++ 32 :: behind) := by
    rw [split]
    simp [first.1]
  simp only [strtok, started, first.2, if_false, taken, dropped]
  rfl

/-- Each call gives the next word of a text without terminator. -/
theorem strtok_words {text word : List UInt8} {others : List (List UInt8)} (free : 0 ∉ text)
    (next : wordsOf text = word :: others) (behind : List UInt8) :
    ∃ rest, strtok (text ++ 32 :: behind) = some (some (word, rest)) ∧
      (others ≠ [] → ∃ later, rest = later ++ 32 :: behind ∧ 0 ∉ later ∧ wordsOf later = others) := by
  induction text using Delimited.induction (32 : UInt8) with
  | last text plain =>
    have filled : text ≠ [] := by
      intro empty
      rw [empty, wordsOf_nil] at next
      cases next
    rw [wordsOf_word filled plain] at next
    obtain ⟨rfl, rfl⟩ := List.cons.inj next
    exact ⟨behind, strtok_word filled plain free behind, fun more => absurd rfl more⟩
  | behind front rest plain ih =>
    have free_rest : 0 ∉ rest := fun member => free (by simp [member])
    have free_front : 0 ∉ front := fun member => free (by simp [member])
    rw [wordsOf_append] at next
    rw [List.append_assoc]
    by_cases empty : front = []
    · subst empty
      rw [wordsOf_nil, List.nil_append] at next
      rw [List.nil_append, List.cons_append, strtok_blank]
      exact ih free_rest next
    · rw [wordsOf_word empty plain] at next
      obtain ⟨rfl, rfl⟩ := List.cons.inj next
      exact ⟨rest ++ 32 :: behind, strtok_word empty plain free_front _, fun _ => ⟨rest, rfl, free_rest, rfl⟩⟩

theorem nthToken_words {n : Nat} {text word : List UInt8} (free : 0 ∉ text) (nth : (wordsOf text)[n]? = some word)
    (behind : List UInt8) : ∃ rest, nthToken n (text ++ 32 :: behind) = some (some (word, rest)) := by
  induction n generalizing text with
  | zero =>
    cases split : wordsOf text with
    | nil => simp [split] at nth
    | cons first others =>
      obtain rfl : first = word := by simpa [split] using nth
      obtain ⟨rest, token, -⟩ := strtok_words free split behind
      exact ⟨rest, token⟩
  | succ n ih =>
    cases split : wordsOf text with
    | nil => simp [split] at nth
    | cons first others =>
      rw [split, List.getElem?_cons_succ] at nth
      have more : others ≠ [] := by
        intro empty
        simp [empty] at nth
      obtain ⟨rest, token, goes_on⟩ := strtok_words free split behind
      obtain ⟨later, rfl, free_later, words_later⟩ := goes_on more
      obtain ⟨last, found⟩ := ih free_later (by rw [words_later]; exact nth)
      exact ⟨last, by rw [nthToken, token]; exact found⟩

/-! ## Lines -/

namespace Process

theorem text_plain (number : Nat) : 32 ∉ text number ∧ 0 ∉ text number :=
  ⟨not_mem_text rfl number, not_mem_text rfl number⟩

theorem state_plain (process : Process) : process.state ≠ 32 ∧ process.state ≠ 0 := by
  have letter := process.letter.1
  constructor
  · intro same
    exact absurd letter (by rw [same]; decide)
  · intro same
    exact absurd letter (by rw [same]; decide)

theorem front_free (process : Process) : 0 ∉ process.front := by
  have state := process.state_plain.2.symm
  simp [front, field, text_plain, process.free, state]

theorem words_front (process : Process) :
    wordsOf process.front = text process.pid :: (wordsOf process.field ++ [[process.state], text process.ppid]) := by
  have state : wordsOf [process.state] = [[process.state]] :=
    wordsOf_word (List.cons_ne_nil _ _) (by simpa using process.state_plain.1.symm)
  rw [front, wordsOf_append, wordsOf_append, wordsOf_append, state, wordsOf_word (text_ne_nil _) (text_plain _).1,
    wordsOf_word (text_ne_nil _) (text_plain _).1]
  rfl

theorem text_short {number : Nat} (small : number < 2 ^ 31) : (text number).length ≤ 10 :=
  (text_length_le (by decide)).mpr (by omega)

/-- The fields in front of the rest of a line fit into the buffer. -/
theorem front_length (process : Process) : process.front.length < 64 := by
  have pid := text_short process.pid_lt
  have ppid := text_short process.ppid_lt
  have comm := process.short
  simp only [front, field, List.length_append, List.length_cons, List.length_nil]
  omega

end Process

/-- A character that is no digit, no sign and no blank reads as 0. -/
theorem toPid_state (process : Process) : toPid [process.state] = 0 := by
  obtain ⟨low, high⟩ := process.letter
  have blank : isSpace process.state = false := by
    simp only [isSpace, Bool.or_eq_false_iff, Bool.and_eq_false_iff, decide_eq_false_iff_not]
    omega
  have no_digit : isDigit process.state = false := by
    simp only [isDigit, Bool.and_eq_false_iff, decide_eq_false_iff_not]
    omega
  have minus : process.state ≠ 45 := fun same => absurd low (by rw [same]; decide)
  have plus : process.state ≠ 43 := fun same => absurd low (by rw [same]; decide)
  have nothing : scan [process.state] = (false, 0) := by
    rw [scan_cons [] blank minus plus, List.takeWhile_cons_of_neg (by simp [no_digit])]
    rfl
  simp only [toPid, strtoul, nothing]
  decide

theorem toPid_text {number : Nat} (small : number < 2 ^ 31) : toPid (text number) = number := by
  rw [toPid, strtoul_text (by omega)]
  exact toInt_eq (by omega) (by omega)

/-- The fourth word of the line reads as the parent exactly where the line is readable. -/
theorem fourth_word (process : Process) :
    ∃ word, (wordsOf process.front)[3]? = some word ∧ (toPid word = process.ppid ↔ Readable process) := by
  rw [Process.words_front]
  rcases wordsOf_field process with ⟨plain, single⟩ | ⟨first, second, others, more, blank⟩
  · refine ⟨text process.ppid, by rw [single]; rfl, ?_⟩
    exact iff_of_true (toPid_text process.ppid_lt) (.plain plain)
  · cases others with
    | nil =>
      refine ⟨[process.state], by rw [more]; rfl, ?_⟩
      rw [toPid_state]
      constructor
      · intro zero
        exact .state more (Int.natCast_eq_zero.mp zero.symm)
      · intro readable
        cases readable with
        | plain plain => exact absurd blank plain
        | state _ zero => rw [zero]; rfl
        | third split _ =>
          rw [more] at split
          cases split
    | cons third others =>
      refine ⟨third, by rw [more]; rfl, ?_⟩
      constructor
      · intro same
        exact .third more same
      · intro readable
        cases readable with
        | plain plain => exact absurd blank plain
        | state split _ =>
          rw [more] at split
          cases split
        | third split same =>
          rw [more] at split
          cases split
          exact same

theorem parentPid_line {fs : ProcFs} {process : Process} (shown : fs.stat process.pid = .ok process.line) (room : 64 ≤ fs.bufsiz)
    (ec : ErrorCode) {word : List UInt8} (fourth : (wordsOf process.front)[3]? = some word) :
    fs.parentPid process.pid ec = some (toPid word, ec) := by
  have fits := process.front_length
  have length : process.line.length = process.front.length + 1 + process.rest.length := by
    simp only [Process.line, List.length_append, List.length_cons]
    omega
  obtain ⟨spare, size⟩ : ∃ spare, min fs.bufsiz process.line.length = process.front.length + 1 + spare :=
    Nat.exists_eq_add_of_le (by omega)
  have read : process.line.take (min fs.bufsiz process.line.length) = process.front ++ 32 :: process.rest.take spare := by
    rw [size, Process.line, Nat.add_assoc, List.take_length_add_append, Nat.add_comm 1, List.take_succ_cons]
  obtain ⟨rest, token⟩ := @nthToken_words 3 _ _ process.front_free fourth
    (process.rest.take spare ++ (fs.buffer process.pid).drop (min fs.bufsiz process.line.length))
  have filled : ¬ min fs.bufsiz process.line.length = 0 := by omega
  simp only [ProcFs.parentPid, shown, if_neg filled, read, List.append_assoc, List.cons_append]
  rw [token]
  rfl

/-! ## Tables -/

/-- The number that parent_pid reads for a process. -/
def parentRead (process : Process) : Int := toPid ((wordsOf process.front).getD 3 [])

theorem parentRead_eq {process : Process} {word : List UInt8} (fourth : (wordsOf process.front)[3]? = some word) :
    parentRead process = toPid word := by
  rw [parentRead, List.getD_eq_getElem?_getD, fourth]
  rfl

theorem parentRead_iff (process : Process) : parentRead process = process.ppid ↔ Readable process := by
  obtain ⟨word, fourth, same⟩ := fourth_word process
  rw [parentRead_eq fourth]
  exact same

namespace ProcTable

variable (table : ProcTable)

theorem parentPid_eq {process : Process} (member : process ∈ table.processes) (ec : ErrorCode) :
    table.fs.parentPid process.pid ec = some (parentRead process, ec) := by
  obtain ⟨word, fourth, -⟩ := fourth_word process
  rw [parentRead_eq fourth]
  exact parentPid_line (table.stats process member) table.room ec fourth

theorem allPids_eq (ec : ErrorCode) : table.fs.allPids ec = (table.processes.map fun process => (process.pid : Int), ec) := by
  have numbers : (table.processes.map fun process => text process.pid).map atoi =
      table.processes.map fun process => (process.pid : Int) := by
    rw [List.map_map]
    exact List.map_congr_left fun process _ => atoi_text process.pid_lt
  rw [ProcFs.allPids, table.opened]
  simp only [table.listed, numbers]

/-- The processes for which parent_pid reads a number. -/
def readAs (parent : Int) (processes : List Process) : List Int :=
  (processes.filter fun process => parentRead process ≠ -1 ∧ parentRead process = parent).map fun process => (process.pid : Int)

theorem readAs_child {parent : Int} {process : Process} (child : parentRead process ≠ -1 ∧ parentRead process = parent)
    (rest : List Process) : readAs parent (process :: rest) = (process.pid : Int) :: readAs parent rest := by
  simp only [readAs, List.filter_cons, decide_eq_true child, if_true, List.map_cons]

theorem readAs_other {parent : Int} {process : Process} (other : ¬ (parentRead process ≠ -1 ∧ parentRead process = parent))
    (rest : List Process) : readAs parent (process :: rest) = readAs parent rest := by
  simp only [readAs, List.filter_cons, decide_eq_false other, Bool.false_eq_true, if_false]

theorem childPid_eq (parent : Int) {process : Process} (member : process ∈ table.processes) (vec : List Int) (ec : ErrorCode) :
    table.fs.childPid parent (vec, ec) process.pid =
      some (if parentRead process ≠ -1 ∧ parentRead process = parent then (vec ++ [(process.pid : Int)], ec)
        else if ec.value = Errno.ESRCH.code then (vec, .clear) else (vec, ec)) := by
  rw [ProcFs.childPid, table.parentPid_eq member ec]
  rfl

theorem foldlM_childPid (parent : Int) {processes : List Process} (shown : ∀ process ∈ processes, process ∈ table.processes)
    (vec : List Int) (ec : ErrorCode) :
    ∃ last, (processes.map fun process => (process.pid : Int)).foldlM (table.fs.childPid parent) (vec, ec) =
      some (vec ++ readAs parent processes, last) := by
  induction processes generalizing vec ec with
  | nil => exact ⟨ec, by simp [readAs]⟩
  | cons process rest ih =>
    obtain ⟨here, later⟩ := List.forall_mem_cons.mp shown
    rw [List.map_cons, List.foldlM_cons, table.childPid_eq parent here]
    by_cases child : parentRead process ≠ -1 ∧ parentRead process = parent
    · obtain ⟨last, reached⟩ := ih later (vec ++ [(process.pid : Int)]) ec
      rw [List.append_assoc, List.singleton_append, ← readAs_child child] at reached
      rw [if_pos child]
      exact ⟨last, reached⟩
    · rw [if_neg child, readAs_other child]
      by_cases vanished : ec.value = Errno.ESRCH.code
      · rw [if_pos vanished]
        exact ih later vec .clear
      · rw [if_neg vanished]
        exact ih later vec ec

theorem childPids_eq (parent : Int) (ec : ErrorCode) :
    ∃ last, table.fs.childPids parent ec = some (readAs parent table.processes, last) := by
  rw [ProcFs.childPids, table.allPids_eq]
  exact table.foldlM_childPid parent (fun _ member => member) [] ec

/-- Each parent has the right children if and only if each process has the right parent. -/
theorem readAs_iff :
    (∀ parent, readAs parent table.processes = table.childrenOf parent) ↔
      ∀ process ∈ table.processes, parentRead process = process.ppid := by
  constructor
  · intro children process member
    have child : (process.pid : Int) ∈ readAs process.ppid table.processes := by
      rw [children]
      exact List.mem_map.mpr ⟨process, List.mem_filter.mpr ⟨member, decide_eq_true rfl⟩, rfl⟩
    obtain ⟨other, found, same⟩ := List.mem_map.mp child
    obtain ⟨present, read⟩ := List.mem_filter.mp found
    obtain rfl : other = process := List.inj_on_of_nodup_map table.distinct present member (Int.ofNat.inj same)
    exact (of_decide_eq_true read).2
  · intro right parent
    have same : (table.processes.filter fun process => parentRead process ≠ -1 ∧ parentRead process = parent) =
        table.processes.filter fun process => process.ppid = parent := by
      apply List.filter_congr
      intro process member
      rw [right process member]
      apply decide_eq_decide.mpr
      constructor
      · exact And.right
      · intro parents
        exact ⟨by omega, parents⟩
    rw [readAs, childrenOf, same]

/-- parent_pid gives the parent of each process with a readable line and of no other one, and
child_pids gives the children of every parent if all lines are readable. -/
theorem parentPid_childPids_iff (ec : ErrorCode) :
    (∀ process ∈ table.processes,
      (table.fs.parentPid process.pid ec).map Prod.fst = some (process.ppid : Int) ↔ Readable process) ∧
    ((∀ parent, (table.fs.childPids parent ec).map Prod.fst = some (table.childrenOf parent)) ↔
      ∀ process ∈ table.processes, Readable process) := by
  constructor
  · intro process member
    rw [table.parentPid_eq member ec, Option.map_some, Option.some.injEq, parentRead_iff]
  · have children (parent : Int) : (table.fs.childPids parent ec).map Prod.fst = some (readAs parent table.processes) := by
      obtain ⟨last, found⟩ := table.childPids_eq parent ec
      rw [found]
      rfl
    simp only [children, Option.some.injEq, table.readAs_iff, parentRead_iff]

def statOf (processes : List Process) (pid : Int) : Except Errno (List UInt8) :=
  match processes.find? fun process => process.pid = pid with
  | some process => .ok process.line
  | none => .error .ENOENT

theorem statOf_eq {processes : List Process} (distinct : (processes.map Process.pid).Nodup) {process : Process}
    (member : process ∈ processes) : statOf processes process.pid = .ok process.line := by
  have found : processes.find? (fun other => (other.pid : Int) = process.pid) = some process := by
    cases result : processes.find? fun other => (other.pid : Int) = process.pid with
    | none =>
      have absent := List.find?_eq_none.mp result process member
      exact absurd (decide_eq_true rfl) absent
    | some other =>
      have same : (other.pid : Int) = process.pid := by simpa using List.find?_some result
      exact congrArg some (List.inj_on_of_nodup_map distinct (List.mem_of_find?_eq_some result) member (Int.ofNat.inj same))
  rw [statOf, found]

/-- /proc, as it shows any processes. -/
def ofProcesses (processes : List Process) (distinct : (processes.map Process.pid).Nodup) : ProcTable where
  processes
  distinct
  names := processes.map fun process => text process.pid
  fs := ⟨.ok (processes.map fun process => text process.pid), statOf processes, 8192, fun _ => [], 0⟩
  opened := rfl
  listed := by
    apply List.filter_eq_self.mpr
    intro name member
    obtain ⟨process, -, rfl⟩ := List.mem_map.mp member
    exact isDigit_first process.pid
  stats _ member := statOf_eq distinct member
  room := show 64 ≤ 8192 by decide

/-- `7 (a b) S 5`: the fourth word is the state. -/
theorem not_parentPid_blank :
    ∃ (table : ProcTable) (process : Process), process ∈ table.processes ∧
      (table.fs.parentPid process.pid .clear).map Prod.fst ≠ some (process.ppid : Int) := by
  let process : Process :=
    ⟨7, [97, 32, 98], 83, 5, [54], by decide, by decide, by decide, by decide, by decide⟩
  have words_field : wordsOf process.field = [[40, 97], [98, 41]] := by decide
  refine ⟨ofProcesses [process] (List.nodup_singleton 7), process, List.mem_singleton.mpr rfl, ?_⟩
  rw [parentPid_eq _ (List.mem_singleton.mpr rfl), Option.map_some, ne_eq, Option.some.injEq, parentRead_iff]
  intro readable
  cases readable with
  | plain plain => exact absurd plain (by decide)
  | state _ zero => cases zero
  | third split _ =>
    rw [words_field] at split
    cases split

end ProcTable

end BoostProcess.V2.Pid
