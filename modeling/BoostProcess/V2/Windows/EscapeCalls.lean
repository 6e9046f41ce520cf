import BoostProcess.V2.Windows.CommandLine

/-! The calls of escape_argv_string that default_launcher::build_command_line makes.

The code that builds the string is given here with its calls, in their order: where each one
writes, the room it is told and the number it returns, which moves the pointer.
-/

set_option autoImplicit false

namespace BoostProcess.V2.Windows

open CommandLine

/-- What `escape_argv_string` stores behind its pointer, and the number it returns. -/
structure Escaped where
  stored : List UInt16
  returned : Nat
  deriving DecidableEq, Repr

/-- `*(itr++) = …` -/
def Escaped.put (escaped : Escaped) (wc : UInt16) : Escaped :=
  { stored := escaped.stored ++ [wc], returned := escaped.returned + 1 }

def escapeArgv (maxSize : Nat) (ws : List UInt16) : Escaped :=
  let sz := escapedArgvLength ws
  if maxSize < sz then ⟨[], 0⟩
  else if ws.isEmpty then ⟨[quote, quote], 2⟩
  else if ¬needsEscape ws then ⟨ws, ws.length⟩
  else if sz < 2 + ws.length then ⟨[], 0⟩
  else
    let opened := Escaped.put ⟨[], 0⟩ quote
    let copied := ws.foldl (fun escaped wc =>
      (if wc = quote then escaped.put backslash else escaped).put wc) opened
    copied.put quote

/-- A call: the offset of its pointer in the string, `max_size` and `ws`. -/
structure EscapeCall where
  itr : Nat
  maxSize : Nat
  ws : List UInt16
  deriving DecidableEq, Repr

def EscapeCall.escaped (call : EscapeCall) : Escaped := escapeArgv call.maxSize call.ws

/-- The calls that have been made, and the string; none if something is written outside of it. -/
structure Build where
  calls : List EscapeCall
  built : Option (List UInt16)
  deriving DecidableEq, Repr

def writeArgvCalls (res : List UInt16) (itr : Nat) : List (List UInt16) → Build
  | [] => ⟨[], some res⟩
  | a :: argv =>
    if itr + 1 ≤ res.length then
      let call : EscapeCall := { itr := itr + 1, maxSize := res.length - (itr + 1), ws := a }
      match write res call.itr call.escaped.stored with
      | none => ⟨[call], none⟩
      | some res =>
        let later := writeArgvCalls res (call.itr + call.escaped.returned) argv
        { later with calls := call :: later.calls }
    else ⟨[], none⟩

def buildCommandLineImplCalls (pt : List UInt16) (argv : List (List UInt16)) : Build :=
  let reqSize := argv.foldl (fun sz arg => sz + 1 + escapedArgvLength arg) (escapedArgvLength pt)
  let res := List.replicate reqSize space
  let call : EscapeCall := { itr := 0, maxSize := res.length, ws := pt }
  match write res call.itr call.escaped.stored with
  | none => ⟨[call], none⟩
  | some res =>
    let later := writeArgvCalls res (call.itr + call.escaped.returned) argv
    { later with calls := call :: later.calls }

/-- Without arguments there is one call, for the executable. -/
def buildAloneCalls (pt : List UInt16) : Build :=
  let buffer := List.replicate (escapedArgvLength pt) 0
  let call : EscapeCall := { itr := 0, maxSize := buffer.length, ws := pt }
  ⟨[call], write buffer call.itr call.escaped.stored⟩

def buildCommandLineCalls (pt : List UInt16) (args : List (List UInt16)) : Build :=
  if args.isEmpty then buildAloneCalls pt else buildCommandLineImplCalls pt args

/-- `build_command_line` for a range of narrow strings; none if a conversion throws, which
it does before the first call. -/
def buildCommandLineNarrowCalls (convString : List UInt8 → Option (List UInt16)) (pt : List UInt16)
    (args : List (List UInt8)) : Option Build :=
  if args.isEmpty then some (buildAloneCalls pt)
  else (args.mapM convString).map (buildCommandLineImplCalls pt)

/-! ## One call -/

theorem foldl_put (ws : List UInt16) (start : Escaped) :
    ws.foldl (fun escaped wc => (if wc = quote then escaped.put backslash else escaped).put wc) start =
      ⟨start.stored ++ marks.escapeQuotes ws, start.returned + (marks.escapeQuotes ws).length⟩ := by
  induction ws generalizing start with
  | nil => simp [Marks.escapeQuotes]
  | cons wc ws ih =>
    have split : marks.escapeQuotes (wc :: ws) =
        (if wc = quote then [backslash, quote] else [wc]) ++ marks.escapeQuotes ws := by
      simp [Marks.escapeQuotes, marks]
    rw [List.foldl_cons, ih, split]
    by_cases quoted : wc = quote
    · simp [quoted, Escaped.put]
      omega
    · simp [quoted, Escaped.put]
      omega

/-- With the room that was predicted, a call stores the escaped string and counts it. -/
theorem escapeArgv_eq {maxSize : Nat} {ws : List UInt16} (fits : escapedArgvLength ws ≤ maxSize) :
    escapeArgv maxSize ws = ⟨marks.encode enclosed ws, escapedArgvLength ws⟩ := by
  have length := encode_length ws
  unfold escapeArgv
  rw [if_neg (Nat.not_lt.mpr fits)]
  unfold Marks.encode enclosed at *
  by_cases empty : ws.isEmpty = true
  · obtain rfl := List.isEmpty_iff.mp empty
    rfl
  · by_cases needs : needsEscape ws = true
    · have room : ¬escapedArgvLength ws < 2 + ws.length := by
        simp [escapedArgvLength, empty, needs]
        omega
      simp only [empty, needs, room, Bool.false_or, if_true, if_false, not_true_eq_false, Bool.false_eq_true] at length ⊢
      rw [foldl_put, ← length]
      simp [Escaped.put, marks]
      omega
    · simp only [empty, needs, Bool.false_or, if_false, Bool.false_eq_true, not_false_eq_true, if_true] at length ⊢
      rw [length]

theorem escapedArgvLength_pos (ws : List UInt16) : 0 < escapedArgvLength ws := by
  unfold escapedArgvLength
  cases ws with
  | nil => decide
  | cons wc ws =>
    simp only [List.isEmpty_cons, Bool.false_eq_true, if_false, List.length_cons]
    split <;> omega

/-- The call stores the escaped argument and returns its length as predicted, inside of a string of
the given size. -/
structure EscapeCall.Exact (call : EscapeCall) (size : Nat) : Prop where
  escapes : call.escaped.stored = marks.encode enclosed call.ws
  stored : call.escaped.stored.length = escapedArgvLength call.ws
  returned : call.escaped.returned = escapedArgvLength call.ws
  room : escapedArgvLength call.ws ≤ call.maxSize
  nonzero : call.escaped.returned ≠ 0
  inside : call.itr + call.escaped.stored.length ≤ size

theorem EscapeCall.exact_of_room {call : EscapeCall} {size : Nat} (room : escapedArgvLength call.ws ≤ call.maxSize)
    (inside : call.itr + escapedArgvLength call.ws ≤ size) : call.Exact size := by
  have escaped : call.escaped = ⟨marks.encode enclosed call.ws, escapedArgvLength call.ws⟩ := escapeArgv_eq room
  have positive := escapedArgvLength_pos call.ws
  refine ⟨?_, ?_, ?_, room, ?_, ?_⟩
  · rw [escaped]
  · rw [escaped, encode_length]
  · rw [escaped]
  · rw [escaped]
    exact Nat.ne_of_gt positive
  · rw [escaped, encode_length]
    exact inside

/-! ## The whole run -/

theorem write_length {buffer text written : List UInt16} {position : Nat}
    (stored : write buffer position text = some written) : written.length = buffer.length := by
  unfold write at stored
  split at stored
  · rename_i fits
    cases stored
    simp only [List.length_append, List.length_take, List.length_drop]
    omega
  · cases stored

/-- The calls of the loop, when the string has exactly the room that was added up for them. -/
theorem writeArgvCalls_exact {res : List UInt16} {itr : Nat} (args : List (List UInt16))
    (room : itr + (marks.joined space enclosed args).length = res.length) :
    (writeArgvCalls res itr args).built = writeArgv res itr args ∧
    (writeArgvCalls res itr args).calls.map EscapeCall.ws = args ∧
    ∀ call ∈ (writeArgvCalls res itr args).calls, call.Exact res.length := by
  induction args generalizing res itr with
  | nil => simp [writeArgvCalls, writeArgv]
  | cons arg args ih =>
    have length := encode_length arg
    have size : (marks.joined space enclosed (arg :: args)).length =
        1 + escapedArgvLength arg + (marks.joined space enclosed args).length := by
      rw [joined_cons, List.length_append, List.length_append, length, List.length_singleton]
    have escaped : EscapeCall.escaped ⟨itr + 1, res.length - (itr + 1), arg⟩ =
        ⟨marks.encode enclosed arg, escapedArgvLength arg⟩ :=
      escapeArgv_eq (show escapedArgvLength arg ≤ res.length - (itr + 1) by omega)
    have exact_call := @EscapeCall.exact_of_room ⟨itr + 1, res.length - (itr + 1), arg⟩ res.length
      (show escapedArgvLength arg ≤ res.length - (itr + 1) by omega)
      (show itr + 1 + escapedArgvLength arg ≤ res.length by omega)
    have inside : itr + 1 ≤ res.length := by omega
    have fits : itr + 1 + (marks.encode enclosed arg).length ≤ res.length := by omega
    rw [writeArgv_cons args (by omega)]
    simp only [writeArgvCalls, inside, if_true, escaped]
    cases stored : write res (itr + 1) (marks.encode enclosed arg) with
    | none => simp [write, fits] at stored
    | some written =>
      have kept := write_length stored
      obtain ⟨built, strings, all⟩ := @ih written (itr + 1 + escapedArgvLength arg) (by omega)
      refine ⟨?_, ?_, ?_⟩
      · rw [Option.bind_some, length]
        exact built
      · rw [List.map_cons, strings]
      · rw [← kept]
        exact List.forall_mem_cons.mpr ⟨kept ▸ exact_call, all⟩

theorem intercalate_encode (pt : List UInt16) (args : List (List UInt16)) :
    [space].intercalate ((pt :: args).map (marks.encode enclosed)) =
      marks.encode enclosed pt ++ marks.joined space enclosed args := by
  induction args generalizing pt with
  | nil => simp [Marks.joined]
  | cons arg args ih =>
    rw [List.map_cons, List.map_cons, List.intercalate_cons_cons, ← List.map_cons, ih, joined_cons]
    simp only [List.append_assoc]

/-- The strings are escaped in order, every call is exact, and the string that is built is what
they store, joined by single spaces. -/
def Build.Exact (run : Build) (strings : List (List UInt16)) : Prop :=
  run.calls.map EscapeCall.ws = strings ∧ ∃ text, run.built = some text ∧
    text = [space].intercalate (run.calls.map fun call => call.escaped.stored) ∧
    ∀ call ∈ run.calls, call.Exact text.length

theorem Build.exact_of_calls {run : Build} {pt : List UInt16} {args : List (List UInt16)}
    (strings : run.calls.map EscapeCall.ws = pt :: args) (built : run.built = buildCommandLine pt args)
    (calls : ∀ call ∈ run.calls, call.Exact (escapedArgvLength pt + (marks.joined space enclosed args).length)) :
    run.Exact (pt :: args) := by
  refine ⟨strings, _, built.trans (buildCommandLine_eq pt args), ?_, ?_⟩
  · have stored : run.calls.map (fun call => call.escaped.stored) =
        run.calls.map fun call => marks.encode enclosed call.ws :=
      List.map_congr_left fun call member => (calls call member).escapes
    rw [stored, ← intercalate_encode, ← strings, List.map_map]
    rfl
  · rw [List.length_append, encode_length]
    exact calls

theorem buildAloneCalls_exact (pt : List UInt16) : (buildAloneCalls pt).Exact [pt] := by
  have exact_call := @EscapeCall.exact_of_room ⟨0, escapedArgvLength pt, pt⟩ (escapedArgvLength pt)
    (Nat.le_refl _) (Nat.le_of_eq (Nat.zero_add _))
  have stored : escapeArgvString (escapedArgvLength pt) pt = marks.encode enclosed pt :=
    escapeArgvString_eq (Nat.le_refl _)
  apply Build.exact_of_calls
  · rfl
  · simp only [buildAloneCalls, buildCommandLine, List.isEmpty_nil, if_true, List.length_replicate, stored,
      exact_call.escapes]
  · intro call member
    simp only [buildAloneCalls, List.length_replicate, List.mem_singleton] at member
    subst member
    exact exact_call

theorem buildCommandLineImplCalls_exact (pt arg : List UInt16) (args : List (List UInt16)) :
    (buildCommandLineImplCalls pt (arg :: args)).Exact (pt :: arg :: args) := by
  have length := encode_length pt
  have requested := foldl_length (arg :: args) (escapedArgvLength pt)
  generalize size_eq : escapedArgvLength pt + (marks.joined space enclosed (arg :: args)).length = size at requested
  have room : escapedArgvLength pt ≤ size := by omega
  have escaped : EscapeCall.escaped ⟨0, size, pt⟩ = ⟨marks.encode enclosed pt, escapedArgvLength pt⟩ :=
    escapeArgv_eq room
  have text := escapeArgvString_eq room
  have exact_call := @EscapeCall.exact_of_room ⟨0, size, pt⟩ size room (show 0 + escapedArgvLength pt ≤ size by omega)
  cases stored : write (List.replicate size space) 0 (marks.encode enclosed pt) with
  | none => simp [write, length, room] at stored
  | some written =>
    have kept := write_length stored
    rw [List.length_replicate] at kept
    obtain ⟨built, strings, all⟩ := @writeArgvCalls_exact written (escapedArgvLength pt) (arg :: args) (by omega)
    have run : buildCommandLineImplCalls pt (arg :: args) =
        ⟨⟨0, size, pt⟩ :: (writeArgvCalls written (escapedArgvLength pt) (arg :: args)).calls,
          (writeArgvCalls written (escapedArgvLength pt) (arg :: args)).built⟩ := by
      simp only [buildCommandLineImplCalls, requested, List.length_replicate, escaped, stored, Nat.zero_add]
    rw [run]
    apply Build.exact_of_calls
    · rw [List.map_cons, strings]
    · simp only [buildCommandLine, List.isEmpty_cons, Bool.false_eq_true, if_false, buildCommandLineImpl, requested,
        List.length_replicate, text, stored, Option.bind_some, built, length]
    · rw [size_eq]
      exact List.forall_mem_cons.mpr ⟨exact_call, kept ▸ all⟩

/-- Whatever the strings, each call stores its escaped string with the length that was predicted, and
the command line is what they store, joined by single spaces. Narrow arguments are converted before. -/
theorem buildCommandLineCalls_exact (convString : List UInt8 → Option (List UInt16)) (pt : List UInt16) :
    (∀ args, (buildCommandLineCalls pt args).Exact (pt :: args)) ∧
    ∀ args run, buildCommandLineNarrowCalls convString pt args = some run →
      ∃ argw, args.mapM convString = some argw ∧ run.Exact (pt :: argw) := by
  constructor
  · intro args
    cases args with
    | nil => exact buildAloneCalls_exact pt
    | cons arg args => exact buildCommandLineImplCalls_exact pt arg args
  · intro args run built
    cases args with
    | nil =>
      cases built
      exact ⟨[], rfl, buildAloneCalls_exact pt⟩
    | cons arg args =>
      obtain ⟨argw, converted, rfl⟩ := Option.map_eq_some_iff.mp built
      refine ⟨argw, converted, ?_⟩
      cases argw with
      | nil =>
        cases first : convString arg <;> cases later : args.mapM convString <;> simp [first, later] at converted
      | cons first others => exact buildCommandLineImplCalls_exact pt first others

end BoostProcess.V2.Windows
