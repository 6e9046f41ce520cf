import BoostProcess.Library.CommandLine

/-! default_launcher::build_command_line: the string for CreateProcessW.

The length of the string is added up first, a buffer of that length is filled, and the
executable and the arguments are written into it one behind the other.
-/

set_option autoImplicit false

namespace BoostProcess.V2.Windows

open CommandLine

def quote : UInt16 := 34
def backslash : UInt16 := 92
def space : UInt16 := 32
def tab : UInt16 := 9

/-- The characters that the documented rules of CommandLineToArgvW are about. -/
def marks : Marks UInt16 where
  quote := quote
  backslash := backslash
  blank code := code = space ∨ code = tab
  distinct := by decide
  quote_not_blank := by decide
  backslash_not_blank := by decide

/-- `has_space && !quoted`. A tab makes no difference. -/
def needsEscape (ws : List UInt16) : Bool :=
  let hasSpace := ws.contains space
  let quoted := ws.head? = some quote ∧ ws.getLast? = some quote
  hasSpace ∧ ¬quoted

def escapedArgvLength (ws : List UInt16) : Nat :=
  if ws.isEmpty then 2 -- just quotes
  else if ¬needsEscape ws then ws.length
  else ws.length + ws.count quote + 2

/-- What `escape_argv_string` writes; it returns the number of these characters. -/
def escapeArgvString (maxSize : Nat) (ws : List UInt16) : List UInt16 :=
  let sz := escapedArgvLength ws
  if maxSize < sz then []
  else if ws.isEmpty then [quote, quote]
  else if ¬needsEscape ws then ws
  else if sz < 2 + ws.length then []
  else quote :: (ws.flatMap fun wc => if wc = quote then [backslash, wc] else [wc]) ++ [quote]

/-- Write characters at a position of a buffer; none if they do not fit into it. -/
def write (buffer : List UInt16) (position : Nat) (text : List UInt16) : Option (List UInt16) :=
  if position + text.length ≤ buffer.length then
    some (buffer.take position ++ text ++ buffer.drop (position + text.length))
  else none

/-- The loop over the arguments, with `itr` as an offset. -/
def writeArgv (res : List UInt16) (itr : Nat) : List (List UInt16) → Option (List UInt16)
  | [] => some res
  | a :: argv =>
    if itr + 1 ≤ res.length then
      let text := escapeArgvString (res.length - (itr + 1)) a
      (write res (itr + 1) text).bind fun res => writeArgv res (itr + 1 + text.length) argv
    else none

def buildCommandLineImpl (pt : List UInt16) (argv : List (List UInt16)) : Option (List UInt16) :=
  let reqSize := argv.foldl (fun sz arg => sz + 1 + escapedArgvLength arg) (escapedArgvLength pt)
  let res := List.replicate reqSize space
  let text := escapeArgvString res.length pt
  (write res 0 text).bind fun res => writeArgv res text.length argv

/-- `build_command_line` for a path and a range of wide strings. -/
def buildCommandLine (pt : List UInt16) (args : List (List UInt16)) : Option (List UInt16) :=
  if args.isEmpty then
    let buffer := List.replicate (escapedArgvLength pt) 0
    write buffer 0 (escapeArgvString buffer.length pt)
  else buildCommandLineImpl pt args

/-! ## What is built -/

/-- What is put in quotes. -/
def enclosed (ws : List UInt16) : Bool := ws.isEmpty || needsEscape ws

theorem escapeQuotes_length (ws : List UInt16) : (marks.escapeQuotes ws).length = ws.length + ws.count quote := by
  induction ws with
  | nil => rfl
  | cons wc ws ih =>
    have split : marks.escapeQuotes (wc :: ws) =
        (if wc = quote then [backslash, quote] else [wc]) ++ marks.escapeQuotes ws := by
      simp [Marks.escapeQuotes, marks]
    rw [split, List.length_append, ih, List.length_cons, List.count_cons]
    by_cases quoted : wc = quote
    · simp [quoted]
      omega
    · simp [quoted]
      omega

theorem encode_length (ws : List UInt16) : (marks.encode enclosed ws).length = escapedArgvLength ws := by
  unfold Marks.encode enclosed escapedArgvLength
  by_cases empty : ws.isEmpty = true
  · obtain rfl := List.isEmpty_iff.mp empty
    rfl
  · by_cases needs : needsEscape ws = true
    · simp [empty, needs, escapeQuotes_length]
    · simp [empty, needs]

theorem escapeArgvString_eq {maxSize : Nat} {ws : List UInt16} (fits : escapedArgvLength ws ≤ maxSize) :
    escapeArgvString maxSize ws = marks.encode enclosed ws := by
  unfold escapeArgvString
  rw [if_neg (Nat.not_lt.mpr fits)]
  unfold Marks.encode enclosed
  by_cases empty : ws.isEmpty = true
  · obtain rfl := List.isEmpty_iff.mp empty
    rfl
  · by_cases needs : needsEscape ws = true
    · have room : ¬escapedArgvLength ws < 2 + ws.length := by
        simp [escapedArgvLength, empty, needs]
        omega
      have escaped : (ws.flatMap fun wc => if wc = quote then [backslash, wc] else [wc]) = marks.escapeQuotes ws := by
        unfold Marks.escapeQuotes
        congr 1
        funext wc
        by_cases same : wc = quote <;> simp [marks, same]
      simp [empty, needs, room, escaped, marks]
    · simp [empty, needs]

theorem joined_cons (arg : List UInt16) (args : List (List UInt16)) :
    marks.joined space enclosed (arg :: args) =
      [space] ++ marks.encode enclosed arg ++ marks.joined space enclosed args := by
  simp [Marks.joined]

theorem write_replicate {front text : List UInt16} {filler : UInt16} {room : Nat} (fits : text.length ≤ room) :
    write (front ++ List.replicate room filler) front.length text =
      some (front ++ text ++ List.replicate (room - text.length) filler) := by
  unfold write
  rw [if_pos (by simpa using fits)]
  simp [List.drop_append]

/-- One round of the loop, with room for the separator and the argument. -/
theorem writeArgv_cons {res a : List UInt16} {itr : Nat} (argv : List (List UInt16))
    (room : itr + 1 + escapedArgvLength a ≤ res.length) :
    writeArgv res itr (a :: argv) =
      (write res (itr + 1) (marks.encode enclosed a)).bind fun res =>
        writeArgv res (itr + 1 + (marks.encode enclosed a).length) argv := by
  rw [writeArgv, if_pos (by omega), escapeArgvString_eq (by omega)]

/-- The loop writes each argument behind the separator that the buffer has there. -/
theorem writeArgv_eq (front : List UInt16) (args : List (List UInt16)) :
    writeArgv (front ++ List.replicate (marks.joined space enclosed args).length space) front.length args =
      some (front ++ marks.joined space enclosed args) := by
  induction args generalizing front with
  | nil => simp [writeArgv, Marks.joined]
  | cons arg args ih =>
    have fits := encode_length arg
    have separated : front ++ List.replicate (marks.joined space enclosed (arg :: args)).length space =
        (front ++ [space]) ++
          List.replicate ((marks.encode enclosed arg).length + (marks.joined space enclosed args).length) space := by
      rw [joined_cons, List.length_append, List.length_append, Nat.add_assoc, List.replicate_add]
      simp
    have behind : front.length + 1 = (front ++ [space]).length := by simp
    have later := ih (front ++ [space] ++ marks.encode enclosed arg)
    rw [separated, writeArgv_cons args (by simp; omega), behind, write_replicate (Nat.le_add_right _ _),
      Nat.add_sub_cancel_left, Option.bind_some, ← List.length_append, later, joined_cons]
    simp

theorem foldl_length (args : List (List UInt16)) (sz : Nat) :
    args.foldl (fun sz arg => sz + 1 + escapedArgvLength arg) sz = sz + (marks.joined space enclosed args).length := by
  induction args generalizing sz with
  | nil => rfl
  | cons arg args ih =>
    have length := encode_length arg
    rw [List.foldl_cons, ih, joined_cons]
    simp only [List.length_append, List.length_cons, List.length_nil]
    omega

/-- The string: nothing is written outside of the buffer, and all of it is written. -/
theorem buildCommandLine_eq (pt : List UInt16) (args : List (List UInt16)) :
    buildCommandLine pt args = some (marks.encode enclosed pt ++ marks.joined space enclosed args) := by
  have first := encode_length pt
  have filled : ∀ (filler : UInt16) (rest : Nat),
      write (List.replicate (escapedArgvLength pt + rest) filler) 0 (marks.encode enclosed pt) =
        some (marks.encode enclosed pt ++ List.replicate rest filler) := by
    intro filler rest
    have written := @write_replicate [] (marks.encode enclosed pt) filler (escapedArgvLength pt + rest) (by omega)
    rw [first, Nat.add_sub_cancel_left] at written
    simpa using written
  unfold buildCommandLine
  cases args with
  | nil =>
    have whole := filled 0 0
    simp only [List.isEmpty_nil, if_true, List.length_replicate]
    rw [escapeArgvString_eq (Nat.le_refl _)]
    simpa [Marks.joined] using whole
  | cons arg args =>
    simp only [List.isEmpty_cons, Bool.false_eq_true, if_false, buildCommandLineImpl, foldl_length, List.length_replicate]
    rw [escapeArgvString_eq (Nat.le_add_right _ _), filled, Option.bind_some, writeArgv_eq]

/-! ## What the rules read -/

/-- The strings that are read back. With a space, and when not given in quotes: those
without a backslash in front of a double quote or at the end. Without one: those that have
no double quote and no tab. -/
def Readable (ws : List UInt16) : Prop :=
  if space ∈ ws then
    ¬(ws.head? = some quote ∧ ws.getLast? = some quote) ∧ ¬[backslash, quote] <:+: ws ++ [quote]
  else quote ∉ ws ∧ tab ∉ ws

theorem faithful_iff_readable (ws : List UInt16) : marks.Faithful enclosed ws ↔ Readable ws := by
  unfold Marks.Faithful Readable
  by_cases separated : space ∈ ws
  · have not_empty : ws ≠ [] := List.ne_nil_of_mem separated
    by_cases quoted : ws.head? = some quote ∧ ws.getLast? = some quote
    · have quote_mem : quote ∈ ws := List.mem_of_mem_head? quoted.1
      simp [enclosed, needsEscape, separated, quoted, not_empty, quote_mem, marks]
    · have escaped : enclosed ws = true := by
        simp [enclosed, needsEscape, separated, not_empty]
        exact not_and_or.mp quoted
      rw [if_pos escaped, if_pos separated]
      exact ⟨fun safe => ⟨quoted, safe⟩, fun safe => safe.2⟩
  · rw [if_neg separated]
    by_cases empty : ws = []
    · subst empty
      decide
    · have bare : ¬enclosed ws = true := by simp [enclosed, needsEscape, separated, empty]
      have blanks : (∀ code ∈ ws, marks.blank code = false) ↔ tab ∉ ws := by
        constructor
        · intro whole member
          simpa [marks] using whole tab member
        · intro no_tab code member
          have not_space : code ≠ space := fun same => separated (same ▸ member)
          have not_tab : code ≠ tab := fun same => no_tab (same ▸ member)
          simp [marks, not_space, not_tab]
      rw [if_neg bare, blanks]
      rfl

/-- The executable and the arguments are what the rules give, exactly when all of them are
strings that are read back. -/
theorem arguments_buildCommandLine_iff (pt : List UInt16) (args : List (List UInt16)) :
    (buildCommandLine pt args).map marks.arguments = some (pt :: args) ↔ ∀ ws ∈ pt :: args, Readable ws := by
  have nil_enclosed : enclosed [] = true := rfl
  have blank : marks.blank space = true := by decide
  have read := marks.split_joined_iff State.fresh_initial nil_enclosed blank pt args
  rw [buildCommandLine_eq, Option.map_some, Option.some_inj, Marks.arguments, read]
  exact forall₂_congr fun ws _ => faithful_iff_readable ws

/-- A tab in an argument is a separator: nothing puts the argument in quotes. -/
theorem not_arguments_tab :
    ¬∀ (pt : List UInt16) (args : List (List UInt16)),
      (∀ ws ∈ args, ¬(ws.head? = some quote ∧ ws.getLast? = some quote)) →
        (buildCommandLine pt args).map marks.arguments = some (pt :: args) := by
  intro holds
  have read := holds [97] [[98, tab, 99]] (by decide)
  revert read
  decide

/-- A backslash at the end of an argument in quotes takes the end quote in, and two arguments
become one. -/
example : (buildCommandLine [97] [[98, space, backslash], [99]]).map marks.arguments =
    some [[97], [98, space, quote, space, 99]] := by decide

end BoostProcess.V2.Windows
