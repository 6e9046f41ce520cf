import BoostProcess.Library.Blocks
import BoostProcess.V2.CharType
import BoostProcess.V2.ErrorCode

/-! ext::cmd on Linux: the command line of another process as a shell.

The file /proc/pid/cmdline is read in pages into a string, and the string is split at its
terminators into an argument vector. A pointer into the string is its offset there.
-/

set_option autoImplicit false

namespace BoostProcess.V2.Ext.Linux

open Blocks

namespace Cmd

def pageSize : Nat := 4096

/-- `read(f, &*(procargs.end() - 4096), 4096)`: the page that ends the string is overwritten
with the beginning of what is left of the file. -/
def read (file procargs : List UInt8) : List UInt8 :=
  let start := procargs.length - pageSize
  procargs.take start ++ file.take pageSize ++ procargs.drop (start + (file.take pageSize).length)

/-- The loop that reads the file. -/
def readPages (isSigned : Bool) (file procargs : List UInt8) : List UInt8 :=
  if procargs.getLast?.map (promote isSigned) = some eof then procargs
  else if (file.take pageSize).length < pageSize then
    (read file procargs).take (procargs.length - pageSize + (file.take pageSize).length)
  else readPages isSigned (file.drop pageSize) (read file procargs ++ List.replicate pageSize 0)
termination_by file.length
decreasing_by
  simp only [pageSize, List.length_take, List.length_drop] at *
  omega

/-- `std::find(itr, procargs.end(), '\\0')` -/
def find (procargs : List UInt8) (itr : Nat) : Nat := itr + (procargs.drop itr).idxOf 0

/-- The loop that fills argv, which `rounds` more rounds of are left. -/
def fillArgv (procargs : List UInt8) (argc n itr : Nat) (argv : List (Option Nat)) :
    Nat → Except ErrorCode (List (Option Nat))
  | 0 => .ok argv
  | rounds + 1 =>
    let e := find procargs itr
    -- something off
    if e = procargs.length ∧ n < argc then .error (.system 22)
    else fillArgv procargs argc (n + 1) (e + 1) (argv.set n (some itr)) rounds

end Cmd

/-- `shell`, as make_cmd_shell_::make leaves it. -/
structure Shell where
  argc : Nat
  /-- What argv points into. -/
  buffer : List UInt8
  argv : List (Option Nat)

/-- `ext::cmd`; none if the code leaves its buffer. -/
def cmd (isSigned : Bool) (cmdline : List UInt8) : Option (Except ErrorCode Shell) :=
  let procargs := Cmd.readPages isSigned cmdline (List.replicate Cmd.pageSize 0)
  -- `procargs.back()`, which an empty string does not have
  procargs.getLast?.map fun back =>
    let procargs := if promote isSigned back = eof then procargs.dropLast else procargs
    let argc := procargs.count 0
    -- a new array has indeterminate elements, except that `argv[argc] = nullptr` is assigned
    let argv := List.replicate (argc + 1) none
    (Cmd.fillArgv procargs argc 0 0 argv (argc + 1)).map fun argv => ⟨argc, procargs, argv⟩

/-- The shell has these arguments: their number, the text that each element of argv points to,
and the null pointer behind them. -/
def Shell.Holds (shell : Shell) (args : List (List UInt8)) : Prop :=
  shell.argc = args.length ∧
  (∀ (index : Nat) (arg : List UInt8), args[index]? = some arg →
    ∃ pointer, shell.argv[index]? = some (some pointer) ∧ text 0 (shell.buffer.drop pointer) = some arg) ∧
  shell.argv[args.length]? = some none

namespace Cmd

variable {isSigned : Bool}

theorem read_zeros (file front : List UInt8) :
    read file (front ++ List.replicate pageSize 0) =
      front ++ file.take pageSize ++ List.replicate (pageSize - (file.take pageSize).length) 0 := by
  have start : (front ++ List.replicate pageSize (0 : UInt8)).length - pageSize = front.length := by simp
  simp only [read, start, List.take_left', List.drop_append, List.drop_eq_nil_of_le (Nat.le_add_right _ _),
    List.nil_append, Nat.add_sub_cancel_left, List.drop_replicate]

/-- Page by page, the whole file replaces the page of zeros that ends the string. -/
theorem readPages_zeros (file front : List UInt8) :
    readPages isSigned file (front ++ List.replicate pageSize 0) = front ++ file := by
  induction length : file.length using Nat.strong_induction_on generalizing file front with
  | _ size ih =>
    have last : (front ++ List.replicate pageSize (0 : UInt8)).getLast? = some 0 := by
      have page : pageSize ≠ 0 := by decide
      simp [List.getLast?_append, List.getLast?_replicate, page]
    have zero : promote isSigned 0 ≠ eof := by
      rw [promote_eq_zero.mpr rfl]
      decide
    have goes_on : (some (0 : UInt8)).map (promote isSigned) ≠ some eof := by simpa using zero
    rw [readPages, last, if_neg goes_on, read_zeros]
    split
    · rename_i short
      have whole : file.take pageSize = file := by
        rw [List.length_take] at short
        exact List.take_of_length_le (by omega)
      have start : (front ++ List.replicate pageSize (0 : UInt8)).length - pageSize = front.length := by simp
      rw [whole, start]
      exact List.take_left' List.length_append
    · rename_i full
      have page : (file.take pageSize).length = pageSize := by
        have := List.length_take_le pageSize file
        omega
      have shorter : (file.drop pageSize).length < size := by
        have positive : 0 < pageSize := by decide
        rw [List.length_take] at page
        rw [List.length_drop]
        omega
      rw [page, Nat.sub_self, List.replicate_zero, List.append_nil, ih _ shorter _ _ rfl, List.append_assoc,
        List.take_append_drop]

/-- Where the arguments start, and where the last one ends. -/
def starts (start : Nat) : List (List UInt8) → List Nat
  | [] => [start]
  | arg :: rest => start :: starts (start + arg.length + 1) rest

theorem find_terminator {front arg rest : List UInt8} (free : 0 ∉ arg) :
    find (front ++ (arg ++ 0 :: rest)) front.length = front.length + arg.length := by
  rw [find, List.drop_left, List.idxOf_append_of_notMem free, List.idxOf_cons_self, Nat.add_zero]

theorem find_end (procargs : List UInt8) : find procargs procargs.length = procargs.length := by
  simp [find]

/-- The loop stores where each argument starts, and then, over the null pointer, where the
string ends. -/
theorem fillArgv_terminated {before args : List (List UInt8)} (free : ∀ arg ∈ args, 0 ∉ arg) {argv : List (Option Nat)}
    (room : argv.length = before.length + args.length + 1) :
    fillArgv (terminated 0 (before ++ args)) (before.length + args.length) before.length (terminated 0 before).length
        argv (args.length + 1) =
      .ok (argv.take before.length ++ (starts (terminated 0 before).length args).map some) := by
  induction args generalizing before argv with
  | nil =>
    have ended : ¬before.length < before.length + 0 := by omega
    have rest : argv.drop (before.length + 1) = [] := List.drop_eq_nil_of_le (by simp at room; omega)
    simp only [List.append_nil, List.length_nil, fillArgv, find_end, ended, and_false, if_false, starts, List.map_cons,
      List.map_nil]
    rw [List.set_eq_take_append_cons_drop, if_pos (by simp at room; omega), rest]
  | cons arg others ih =>
    have first := free arg List.mem_cons_self
    have string : terminated 0 (before ++ arg :: others) =
        terminated 0 before ++ (arg ++ 0 :: terminated 0 others) := by
      rw [terminated_append, terminated_cons]
    have inside : (terminated 0 before).length + arg.length ≠ (terminated 0 (before ++ arg :: others)).length := by
      rw [string]
      simp only [List.length_append, List.length_cons]
      omega
    have found : find (terminated 0 (before ++ arg :: others)) (terminated 0 before).length =
        (terminated 0 before).length + arg.length := by rw [string, find_terminator first]
    -- one round later the argument is among those in front
    have later := @ih (before ++ [arg]) (fun other member => free other (List.mem_cons_of_mem arg member))
      (argv.set before.length (some (terminated 0 before).length)) (by simp at room ⊢; omega)
    have moved : (terminated 0 (before ++ [arg])).length = (terminated 0 before).length + arg.length + 1 := by
      simp [terminated_append, Nat.add_assoc]
    have count : before.length + 1 + others.length = before.length + (arg :: others).length := by
      simp only [List.length_cons]
      omega
    have stored : (argv.set before.length (some (terminated 0 before).length)).take (before.length + 1) =
        argv.take before.length ++ [some (terminated 0 before).length] := by
      have enough : before.length < argv.length := by omega
      rw [List.set_eq_take_append_cons_drop, if_pos enough]
      have front : (argv.take before.length).length = before.length := by rw [List.length_take]; omega
      rw [List.take_append, front, Nat.add_sub_cancel_left, List.take_of_length_le (by omega)]
      rfl
    rw [List.append_assoc, List.singleton_append, moved, List.length_append, List.length_singleton, count, stored]
      at later
    rw [fillArgv, found, if_neg fun ended => inside ended.1]
    exact later.trans (by simp [starts])

theorem count_terminated {args : List (List UInt8)} (free : ∀ arg ∈ args, 0 ∉ arg) :
    (terminated 0 args).count 0 = args.length := by
  induction args with
  | nil => rfl
  | cons arg others ih =>
    have none_inside : arg.count 0 = 0 := List.count_eq_zero.mpr (free arg List.mem_cons_self)
    have later := ih fun other member => free other (List.mem_cons_of_mem arg member)
    rw [terminated_cons, List.count_append, none_inside, List.count_cons_self, later, Nat.zero_add, List.length_cons]

theorem getLast_terminated {args : List (List UInt8)} (some_arg : args ≠ []) :
    (terminated 0 args).getLast? = some 0 := by
  rw [← List.dropLast_append_getLast some_arg, terminated_append, terminated_cons, terminated_nil]
  simp [List.getLast?_append]

theorem starts_text {args : List (List UInt8)} (free : ∀ arg ∈ args, 0 ∉ arg) (front : List UInt8) {index : Nat}
    {arg : List UInt8} (present : args[index]? = some arg) :
    ∃ pointer, (starts front.length args)[index]? = some pointer ∧
      text 0 ((front ++ terminated 0 args).drop pointer) = some arg := by
  induction args generalizing front index with
  | nil => cases present
  | cons first others ih =>
    cases index with
    | zero =>
      obtain rfl : first = arg := by simpa using present
      refine ⟨front.length, rfl, ?_⟩
      rw [List.drop_left, terminated_cons, text_append (free first List.mem_cons_self)]
    | succ index =>
      have later := ih (fun other member => free other (List.mem_cons_of_mem first member)) (front ++ first ++ [0]) present
      simpa [starts, Nat.add_assoc] using later

theorem starts_last (args : List (List UInt8)) (start : Nat) :
    (starts start args)[args.length]? = some (start + (terminated 0 args).length) := by
  induction args generalizing start with
  | nil => rfl
  | cons first others ih =>
    simp only [starts, List.length_cons, List.getElem?_cons_succ, ih, terminated_cons, List.length_append]
    congr 1
    omega

end Cmd

variable {isSigned : Bool}

/-- Whatever its size, the file is read and split; argv ends with a pointer to the end. -/
theorem cmd_terminated {args : List (List UInt8)} (free : ∀ arg ∈ args, 0 ∉ arg) (some_arg : args ≠ []) :
    cmd isSigned (terminated 0 args) =
      some (.ok ⟨args.length, terminated 0 args, (Cmd.starts 0 args).map some⟩) := by
  have whole : Cmd.readPages isSigned (terminated 0 args) (List.replicate Cmd.pageSize 0) = terminated 0 args :=
    Cmd.readPages_zeros _ []
  have zero : promote isSigned 0 ≠ eof := by
    rw [promote_eq_zero.mpr rfl]
    decide
  have filled : Cmd.fillArgv (terminated 0 args) args.length 0 0 (List.replicate (args.length + 1) none) (args.length + 1) =
      .ok ((Cmd.starts 0 args).map some) := by
    have from_start := @Cmd.fillArgv_terminated [] args free (List.replicate (args.length + 1) none) (by simp)
    simpa using from_start
  simp only [cmd, whole, Cmd.getLast_terminated some_arg, Option.map_some, zero, if_false, Cmd.count_terminated free,
    filled]
  rfl

/-- What the shell of a command line has right, and the pointer behind the arguments. -/
theorem cmd_splits {args : List (List UInt8)} (free : ∀ arg ∈ args, 0 ∉ arg) (some_arg : args ≠ []) :
    ∃ shell, cmd isSigned (terminated 0 args) = some (.ok shell) ∧ shell.argc = args.length ∧
      (∀ (index : Nat) (arg : List UInt8), args[index]? = some arg →
        ∃ pointer, shell.argv[index]? = some (some pointer) ∧ text 0 (shell.buffer.drop pointer) = some arg) ∧
      shell.argv[args.length]? = some (some shell.buffer.length) := by
  refine ⟨_, cmd_terminated free some_arg, rfl, fun index arg present => ?_, ?_⟩
  · obtain ⟨pointer, start, read⟩ := Cmd.starts_text free [] present
    exact ⟨pointer, by simpa using start, read⟩
  · simp [Cmd.starts_last]

/-- The empty file has no last element to compare with EOF. -/
theorem cmd_empty : cmd isSigned [] = none := by
  have nothing : Cmd.readPages isSigned [] (List.replicate Cmd.pageSize 0) = [] := Cmd.readPages_zeros [] []
  simp [cmd, nothing]

/-- The loop overwrites the null pointer of every argv, so no command line is given back as a
shell that ends with one. -/
theorem cmd_not_holds {args : List (List UInt8)} (free : ∀ arg ∈ args, 0 ∉ arg) :
    ¬∃ shell, cmd isSigned (terminated 0 args) = some (.ok shell) ∧ shell.Holds args := by
  rintro ⟨shell, given, holds⟩
  cases args with
  | nil =>
    rw [terminated_nil, cmd_empty] at given
    cases given
  | cons arg others =>
    obtain ⟨same, known, -, -, behind⟩ := cmd_splits free (List.cons_ne_nil arg others)
    rw [known, Option.some.injEq, Except.ok.injEq] at given
    subst given
    rw [holds.2.2] at behind
    cases behind

theorem cmd_not_holds_two :
    ¬∃ shell, cmd true (terminated 0 [[108, 115], [45, 108]]) = some (.ok shell) ∧ shell.Holds [[108, 115], [45, 108]] :=
  cmd_not_holds (by decide)

/-- The command line of a process that was started as ls without arguments. -/
theorem cmd_ls_not_holds :
    ¬∃ shell, cmd true (terminated 0 [[108, 115]]) = some (.ok shell) ∧ shell.Holds [[108, 115]] := by
  rintro ⟨shell, given, -, -, ended⟩
  have free : ∀ arg ∈ ([[108, 115]] : List (List UInt8)), 0 ∉ arg := by decide
  rw [cmd_terminated free (by simp), Option.some.injEq, Except.ok.injEq] at given
  subst given
  simp [Cmd.starts] at ended

end BoostProcess.V2.Ext.Linux
