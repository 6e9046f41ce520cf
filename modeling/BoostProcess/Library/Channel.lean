import Mathlib.Data.List.Basic

/-! A pipe between processes: bytes come out in the order in which they went in, and a reader is at the end when the
pipe is empty and no process can write to it any more.

A process has an entry for each descriptor of an end that it has open. Descriptors come from forks and from dup only.
-/

set_option autoImplicit false

structure Channel (Holder Byte : Type) where
  content : List Byte := []
  /-- All that was written, and all that was read, in order. -/
  sent : List Byte := []
  received : List Byte := []
  writers : List Holder
  readers : List Holder

namespace Channel

variable {Holder Byte : Type} [DecidableEq Holder]

def send (channel : Channel Holder Byte) (bytes : List Byte) : Channel Holder Byte :=
  { channel with content := channel.content ++ bytes, sent := channel.sent ++ bytes }

def receive (channel : Channel Holder Byte) (count : Nat) : Channel Holder Byte :=
  { channel with
    content := channel.content.drop count
    received := channel.received ++ channel.content.take count }

/-- The child of a fork has every descriptor of its parent. -/
def fork (channel : Channel Holder Byte) (parent child : Holder) : Channel Holder Byte :=
  { channel with
    writers := ((channel.writers.filter (· = parent)).map fun _ => child) ++ channel.writers
    readers := ((channel.readers.filter (· = parent)).map fun _ => child) ++ channel.readers }

def closeWriter (channel : Channel Holder Byte) (holder : Holder) : Channel Holder Byte :=
  { channel with writers := channel.writers.erase holder }

def closeReader (channel : Channel Holder Byte) (holder : Holder) : Channel Holder Byte :=
  { channel with readers := channel.readers.erase holder }

def exit (channel : Channel Holder Byte) (holder : Holder) : Channel Holder Byte :=
  { channel with
    writers := channel.writers.filter (· ≠ holder)
    readers := channel.readers.filter (· ≠ holder) }

def AtEnd (channel : Channel Holder Byte) : Prop := channel.content = [] ∧ channel.writers = []

instance [DecidableEq Byte] (channel : Channel Holder Byte) : Decidable channel.AtEnd := inferInstanceAs (Decidable (_ ∧ _))

/-- What a process can do to a pipe. -/
inductive Op (Holder Byte : Type) where
  | fork (parent child : Holder)
  | dupWriter (holder : Holder)
  | dupReader (holder : Holder)
  | closeWriter (holder : Holder)
  | closeReader (holder : Holder)
  | exit (holder : Holder)
  /-- A write takes some of the bytes that it is given, if there is a reader. -/
  | send (holder : Holder) (bytes : List Byte)
  /-- A read takes some of the bytes that are there. -/
  | receive (holder : Holder) (count : Nat)
  deriving DecidableEq, Repr

namespace Op

/-- The process that acts. -/
def actor : Op Holder Byte → Holder
  | .fork parent _ => parent
  | .dupWriter holder => holder
  | .dupReader holder => holder
  | .closeWriter holder => holder
  | .closeReader holder => holder
  | .exit holder => holder
  | .send holder _ => holder
  | .receive holder _ => holder

def Sends : Op Holder Byte → Prop
  | .send _ _ => True
  | _ => False

def Receives : Op Holder Byte → Prop
  | .receive _ _ => True
  | _ => False

def Forks : Op Holder Byte → Prop
  | .fork _ _ => True
  | _ => False

instance (op : Op Holder Byte) : Decidable op.Forks := by
  cases op <;> first | exact isFalse id | exact isTrue trivial

instance (op : Op Holder Byte) : Decidable op.Sends := by
  cases op <;> first | exact isFalse id | exact isTrue trivial

instance (op : Op Holder Byte) : Decidable op.Receives := by
  cases op <;> first | exact isFalse id | exact isTrue trivial

end Op

def step (channel : Channel Holder Byte) : Op Holder Byte → Option (Channel Holder Byte)
  | .fork parent child => some (channel.fork parent child)
  | .dupWriter holder => if holder ∈ channel.writers then some { channel with writers := holder :: channel.writers } else none
  | .dupReader holder => if holder ∈ channel.readers then some { channel with readers := holder :: channel.readers } else none
  | .closeWriter holder => some (channel.closeWriter holder)
  | .closeReader holder => some (channel.closeReader holder)
  | .exit holder => some (channel.exit holder)
  | .send holder bytes => if holder ∈ channel.writers ∧ channel.readers ≠ [] ∧ bytes ≠ [] then some (channel.send bytes) else none
  | .receive holder count =>
    if holder ∈ channel.readers ∧ 0 < count ∧ count ≤ channel.content.length then some (channel.receive count) else none

/-- Bytes come out in the order in which they went in. -/
def Ordered (channel : Channel Holder Byte) : Prop := channel.sent = channel.received ++ channel.content

variable {channel next : Channel Holder Byte} {op : Op Holder Byte} {holder child : Holder} {bytes : List Byte} {count : Nat}

omit [DecidableEq Holder] in
theorem Ordered.send (ordered : channel.Ordered) (bytes : List Byte) : (channel.send bytes).Ordered := by
  unfold Ordered Channel.send
  dsimp only
  rw [ordered, List.append_assoc]

omit [DecidableEq Holder] in
theorem Ordered.receive (ordered : channel.Ordered) (count : Nat) : (channel.receive count).Ordered := by
  unfold Ordered Channel.receive
  dsimp only
  rw [ordered, List.append_assoc, List.take_append_drop]

omit [DecidableEq Holder] in
/-- At the end everything has been read. -/
theorem Ordered.atEnd (ordered : channel.Ordered) (finished : channel.AtEnd) : channel.received = channel.sent := by
  rw [ordered, finished.1, List.append_nil]

/-- What a step other than a write and a read leaves of the bytes. -/
structure Still (channel next : Channel Holder Byte) : Prop where
  content : next.content = channel.content
  sent : next.sent = channel.sent
  received : next.received = channel.received

inductive Transfer (channel next : Channel Holder Byte) (op : Op Holder Byte) : Prop
  | still (quiet : ¬ op.Sends ∧ ¬ op.Receives) (same : Still channel next)
  | send (holder : Holder) (bytes : List Byte) (same : op = .send holder bytes) (here : holder ∈ channel.writers)
      (read : channel.readers ≠ []) (some' : bytes ≠ []) (after : next = channel.send bytes)
  | receive (holder : Holder) (count : Nat) (same : op = .receive holder count) (here : holder ∈ channel.readers)
      (positive : 0 < count) (there : count ≤ channel.content.length) (after : next = channel.receive count)

/-- The bytes after a step. -/
theorem transfer_of_step (taken : channel.step op = some next) : Transfer channel next op := by
  cases op with
  | dupWriter holder =>
    simp only [step] at taken
    obtain ⟨-, ⟨⟩⟩ := Option.ite_none_right_eq_some.mp taken
    exact .still ⟨id, id⟩ ⟨rfl, rfl, rfl⟩
  | dupReader holder =>
    simp only [step] at taken
    obtain ⟨-, ⟨⟩⟩ := Option.ite_none_right_eq_some.mp taken
    exact .still ⟨id, id⟩ ⟨rfl, rfl, rfl⟩
  | send holder bytes =>
    simp only [step] at taken
    obtain ⟨⟨here, read, some'⟩, ⟨⟩⟩ := Option.ite_none_right_eq_some.mp taken
    exact .send holder bytes rfl here read some' rfl
  | receive holder count =>
    simp only [step] at taken
    obtain ⟨⟨here, positive, there⟩, ⟨⟩⟩ := Option.ite_none_right_eq_some.mp taken
    exact .receive holder count rfl here positive there rfl
  | _ =>
    cases taken
    exact .still ⟨id, id⟩ ⟨rfl, rfl, rfl⟩

theorem Ordered.step (ordered : channel.Ordered) (taken : channel.step op = some next) : next.Ordered := by
  cases transfer_of_step taken with
  | still _ same =>
    unfold Ordered
    rw [same.sent, same.received, same.content]
    exact ordered
  | send _ bytes _ _ _ _ after =>
    rw [after]
    exact ordered.send bytes
  | receive _ count _ _ _ _ after =>
    rw [after]
    exact ordered.receive count

theorem mem_fork {holders : List Holder} {parent other : Holder}
    (member : other ∈ ((holders.filter (· = parent)).map fun _ => child) ++ holders) :
    other ∈ holders ∨ other = child ∧ parent ∈ holders := by
  cases List.mem_append.mp member with
  | inl new =>
    obtain ⟨holder, present, rfl⟩ := List.mem_map.mp new
    obtain ⟨present, same⟩ := List.mem_filter.mp present
    have same : holder = parent := by simpa using same
    exact .inr ⟨rfl, same ▸ present⟩
  | inr old => exact .inl old

/-- A process can write because it could before, or because its parent could. -/
theorem writer_of_step (taken : channel.step op = some next) (member : holder ∈ next.writers) :
    holder ∈ channel.writers ∨ ∃ parent, op = .fork parent holder ∧ parent ∈ channel.writers := by
  cases op with
  | fork parent child =>
    cases taken
    obtain old | ⟨rfl, has⟩ := mem_fork member
    · exact .inl old
    · exact .inr ⟨parent, rfl, has⟩
  | dupWriter other =>
    simp only [step] at taken
    obtain ⟨here, ⟨⟩⟩ := Option.ite_none_right_eq_some.mp taken
    cases List.mem_cons.mp member with
    | inl same => exact .inl (same ▸ here)
    | inr old => exact .inl old
  | dupReader other =>
    simp only [step] at taken
    obtain ⟨-, ⟨⟩⟩ := Option.ite_none_right_eq_some.mp taken
    exact .inl member
  | closeWriter other =>
    cases taken
    exact .inl (List.mem_of_mem_erase member)
  | closeReader other =>
    cases taken
    exact .inl member
  | exit other =>
    cases taken
    exact .inl (List.mem_of_mem_filter member)
  | send other bytes =>
    simp only [step] at taken
    obtain ⟨-, ⟨⟩⟩ := Option.ite_none_right_eq_some.mp taken
    exact .inl member
  | receive other count =>
    simp only [step] at taken
    obtain ⟨-, ⟨⟩⟩ := Option.ite_none_right_eq_some.mp taken
    exact .inl member

/-- A fork leaves the descriptors of all but the child. -/
theorem count_fork {parent : Holder} (distinct : child ≠ holder) :
    (channel.fork parent child).writers.count holder = channel.writers.count holder := by
  unfold fork
  dsimp only
  rw [List.count_append, List.count_eq_zero_of_not_mem, Nat.zero_add]
  intro member
  obtain ⟨-, -, same⟩ := List.mem_map.mp member
  exact distinct same

/-- Another process leaves the descriptors of a process alone. -/
theorem count_of_step (taken : channel.step op = some next) (distinct : op.actor ≠ holder) (single : ¬ op.Forks) :
    next.writers.count holder = channel.writers.count holder := by
  cases op with
  | fork parent child => exact absurd trivial single
  | dupWriter other =>
    simp only [step] at taken
    obtain ⟨-, ⟨⟩⟩ := Option.ite_none_right_eq_some.mp taken
    exact List.count_cons_of_ne distinct
  | dupReader other =>
    simp only [step] at taken
    obtain ⟨-, ⟨⟩⟩ := Option.ite_none_right_eq_some.mp taken
    rfl
  | closeWriter other =>
    cases taken
    exact List.count_erase_of_ne (Ne.symm distinct)
  | closeReader other =>
    cases taken
    rfl
  | exit other =>
    cases taken
    exact List.count_filter (decide_eq_true (Ne.symm distinct))
  | send other bytes =>
    simp only [step] at taken
    obtain ⟨-, ⟨⟩⟩ := Option.ite_none_right_eq_some.mp taken
    rfl
  | receive other count =>
    simp only [step] at taken
    obtain ⟨-, ⟨⟩⟩ := Option.ite_none_right_eq_some.mp taken
    rfl

/-- Nobody can write again. -/
theorem no_writer_of_step (taken : channel.step op = some next) (none : channel.writers = []) : next.writers = [] := by
  rw [List.eq_nil_iff_forall_not_mem]
  intro holder member
  obtain old | ⟨parent, -, has⟩ := writer_of_step taken member
  · rw [none] at old
    cases old
  · rw [none] at has
    cases has

/-- Without a writer nothing is written any more. -/
theorem sent_of_step (taken : channel.step op = some next) (none : channel.writers = []) : next.sent = channel.sent := by
  cases transfer_of_step taken with
  | still _ same => exact same.sent
  | send holder _ _ here =>
    rw [none] at here
    cases here
  | receive _ _ _ _ _ _ after =>
    rw [after]
    rfl

/-- The end stays the end. -/
theorem AtEnd.step (finished : channel.AtEnd) (taken : channel.step op = some next) :
    next.AtEnd ∧ next.received = channel.received := by
  have closed := no_writer_of_step taken finished.2
  cases transfer_of_step taken with
  | still _ same => exact ⟨⟨same.content.trans finished.1, closed⟩, same.received⟩
  | send holder _ _ here =>
    rw [finished.2] at here
    cases here
  | receive _ count _ _ positive there =>
    rw [finished.1] at there
    exact absurd there (Nat.not_le.mpr positive)

/-- Nobody else than a reader's own descriptors decides that it can still read. -/
theorem reader_of_step (taken : channel.step op = some next) (here : holder ∈ channel.readers) (distinct : op.actor ≠ holder) :
    holder ∈ next.readers := by
  cases op with
  | fork parent child =>
    cases taken
    exact List.mem_append_right _ here
  | dupWriter other =>
    simp only [step] at taken
    obtain ⟨-, ⟨⟩⟩ := Option.ite_none_right_eq_some.mp taken
    exact here
  | dupReader other =>
    simp only [step] at taken
    obtain ⟨-, ⟨⟩⟩ := Option.ite_none_right_eq_some.mp taken
    exact List.mem_cons_of_mem _ here
  | closeWriter other =>
    cases taken
    exact here
  | closeReader other =>
    cases taken
    exact (List.mem_erase_of_ne (Ne.symm distinct)).mpr here
  | exit other =>
    cases taken
    exact List.mem_filter.mpr ⟨here, decide_eq_true (Ne.symm distinct)⟩
  | send other bytes =>
    simp only [step] at taken
    obtain ⟨-, ⟨⟩⟩ := Option.ite_none_right_eq_some.mp taken
    exact here
  | receive other count =>
    simp only [step] at taken
    obtain ⟨-, ⟨⟩⟩ := Option.ite_none_right_eq_some.mp taken
    exact here

/-! ## Who has an end to write to -/

/-- The pipe of a process that forks. The process is 0, and `kin` are some of its children and their descendants. -/
structure Family (Byte : Type) where
  channel : Channel Nat Byte := { writers := [0], readers := [0] }
  born : Nat := 1
  kin : List Nat := []
  /-- All processes that a fork has given an end to write to. -/
  heirs : List Nat := []
  /-- The process has the end that it opened. -/
  sinkOpen : Bool := true

namespace Family

def fork (family : Family Byte) (parent : Nat) (related : Bool) : Family Byte :=
  { family with
    channel := family.channel.fork parent family.born
    born := family.born + 1
    kin := if related then family.born :: family.kin else family.kin
    heirs := if parent ∈ family.channel.writers then family.born :: family.heirs else family.heirs }

def closeSink (family : Family Byte) : Family Byte :=
  { family with channel := family.channel.closeWriter 0, sinkOpen := false }

/-- Who can write is the process as long as its sink is open, or got the end by a fork. -/
structure Known (family : Family Byte) : Prop where
  sink : family.channel.writers.count 0 = if family.sinkOpen then 1 else 0
  writers : ∀ writer ∈ family.channel.writers, writer = 0 ∨ writer ∈ family.heirs
  born : 0 < family.born
  heirs : ∀ heir ∈ family.heirs, heir < family.born
  kin : ∀ heir ∈ family.kin, heir < family.born

/-- Every process with an end to write to that a fork gave it is of the kin. -/
def Related (family : Family Byte) : Prop := ∀ heir ∈ family.heirs, heir ∈ family.kin

variable {family : Family Byte}

theorem known_start : Known ({} : Family Byte) where
  sink := rfl
  writers _ member := .inl (List.mem_singleton.mp member)
  born := Nat.one_pos
  heirs := nofun
  kin := nofun

theorem mem_grown {born heir : Nat} {before : List Nat} {grows : Prop} [Decidable grows] (bounded : ∀ heir ∈ before, heir < born)
    (member : heir ∈ if grows then born :: before else before) : heir < born + 1 := by
  split at member
  · cases List.mem_cons.mp member with
    | inl new => omega
    | inr old => exact Nat.lt_succ_of_lt (bounded heir old)
  · exact Nat.lt_succ_of_lt (bounded heir member)

namespace Known

theorem mem (known : Known family) : 0 ∈ family.channel.writers ↔ family.sinkOpen = true := by
  rw [← List.count_pos_iff, known.sink]
  cases family.sinkOpen <;> simp

theorem fork (known : Known family) (parent : Nat) (related : Bool) : Known (family.fork parent related) := by
  have distinct : family.born ≠ 0 := Nat.pos_iff_ne_zero.mp known.born
  refine ⟨?_, ?_, Nat.succ_pos _, ?_, ?_⟩
  · exact (count_fork distinct).trans known.sink
  · intro writer member
    obtain old | ⟨rfl, has⟩ := mem_fork member
    · refine (known.writers writer old).imp_right fun heir => ?_
      unfold Family.fork
      dsimp only
      split
      · exact List.mem_cons_of_mem _ heir
      · exact heir
    · right
      unfold Family.fork
      dsimp only
      rw [if_pos has]
      exact List.mem_cons_self
  · intro heir member
    exact mem_grown known.heirs member
  · intro heir member
    exact mem_grown known.kin member

theorem closeSink (known : Known family) (opened : family.sinkOpen = true) : Known family.closeSink := by
  refine ⟨?_, fun writer member => known.writers writer (List.mem_of_mem_erase member), known.born, known.heirs, known.kin⟩
  have before := known.sink
  rw [opened] at before
  refine List.count_erase_self.trans ?_
  rw [before]
  rfl

/-- Another process does something with its descriptors. -/
theorem act {channel : Channel Nat Byte} {op : Op Nat Byte} (known : Known family) (taken : family.channel.step op = some channel)
    (distinct : op.actor ≠ 0) (single : ¬ op.Forks) : Known { family with channel := channel } := by
  refine ⟨(count_of_step taken distinct single).trans known.sink, fun writer member => ?_, known.born, known.heirs, known.kin⟩
  obtain old | ⟨parent, rfl, -⟩ := writer_of_step taken member
  · exact known.writers writer old
  · exact absurd trivial single

end Known

theorem related_fork (known : Known family) (parent : Nat) (related : Bool) :
    Related (family.fork parent related) ↔ Related family ∧ (parent ∈ family.channel.writers → related = true) := by
  have unborn : family.born ∉ family.kin := fun member => Nat.lt_irrefl _ (known.kin _ member)
  have kin (heir : Nat) : heir ∈ (family.fork parent related).kin ↔ related = true ∧ heir = family.born ∨ heir ∈ family.kin := by
    unfold fork
    dsimp only
    cases related <;> simp
  have heirs (heir : Nat) : heir ∈ (family.fork parent related).heirs ↔
      parent ∈ family.channel.writers ∧ heir = family.born ∨ heir ∈ family.heirs := by
    unfold fork
    dsimp only
    split
    · rename_i has
      rw [List.mem_cons, and_iff_right has]
    · rename_i has
      simp [has]
  constructor
  · intro all
    refine ⟨fun heir member => ?_, fun has => ?_⟩
    · obtain ⟨-, rfl⟩ | old := (kin heir).mp (all heir ((heirs heir).mpr (.inr member)))
      · exact absurd (known.heirs _ member) (Nat.lt_irrefl _)
      · exact old
    · obtain ⟨own, -⟩ | old := (kin _).mp (all _ ((heirs _).mpr (.inl ⟨has, rfl⟩)))
      · exact own
      · exact absurd old unborn
  · rintro ⟨all, own⟩ heir member
    obtain ⟨has, same⟩ | old := (heirs heir).mp member
    · exact (kin heir).mpr (.inl ⟨own has, same⟩)
    · exact (kin heir).mpr (.inr (all heir old))

/-- A process forks itself: the child is of the kin, or there is no sink that it could inherit. -/
theorem related_launch (known : Known family) (own : Bool) :
    Related (family.fork 0 own) ↔ Related family ∧ (own = true ∨ family.sinkOpen = false) := by
  rw [related_fork known, known.mem]
  refine and_congr_right fun _ => ?_
  cases own <;> simp

/-- Another process forks, and its child is of its kind. -/
theorem related_descend (known : Known family) {parent : Nat} (other : parent ≠ 0) :
    Related (family.fork parent (decide (parent ∈ family.kin))) ↔ Related family := by
  rw [related_fork known]
  refine and_iff_left_of_imp fun all has => ?_
  exact decide_eq_true (all parent ((known.writers parent has).resolve_left other))

/-- If only the kin can write, nobody can once they have gone and the sink is closed. -/
theorem writers_of_related (known : Known family) (related : Related family) (closed : family.sinkOpen = false)
    (gone : ∀ heir ∈ family.kin, heir ∉ family.channel.writers) : family.channel.writers = [] := by
  rw [List.eq_nil_iff_forall_not_mem]
  intro writer member
  obtain rfl | heir := known.writers writer member
  · rw [known.mem, closed] at member
    cases member
  · exact gone writer (related writer heir) member

end Family
end Channel
