import MoonBoofuzz.Data.BlockRecurrence
import MoonBoofuzz.Model.Field

namespace MoonBoofuzz

structure Mt19937 where
  state : List UInt32
  index : Nat
  length_state : state.length = 624

namespace Mt19937

structure Mixing where
  state : List UInt32
  i : Nat
  j : Nat
  length_state : state.length = 624

def knuthItem (state : List UInt32) (i : Nat) : UInt32 :=
  let previous := state.getD (i - 1) 0
  ((1812433253 : UInt32) * (previous ^^^ (previous >>> 30)) + UInt32.ofNat i) &&& 0xffffffff

def knuthState : List UInt32 :=
  fillUp knuthItem 623 1 ((List.replicate 624 0).set 0 19650218)

theorem length_knuthState : knuthState.length = 624 := by
  rw [knuthState, length_fillUp, List.length_set, List.length_replicate]

/-- The step to the next place; past the end the last item is carried to the front. -/
def advance (state : List UInt32) (i : Nat) : List UInt32 × Nat :=
  if i + 1 ≥ 624 then (state.set 0 (state.getD 623 0), 1) else (state, i + 1)

theorem length_advance (state : List UInt32) (i : Nat) :
    (advance state i).1.length = state.length := by
  rw [advance]
  split
  · exact List.length_set
  · rfl

def mixKey (key : List UInt32) (mixing : Mixing) : Mixing :=
  let previous := mixing.state.getD (mixing.i - 1) 0
  let item := (mixing.state.getD mixing.i 0 ^^^
      ((previous ^^^ (previous >>> 30)) * 1664525)) +
    key.getD mixing.j 0 + UInt32.ofNat mixing.j
  let moved := advance (mixing.state.set mixing.i item) mixing.i
  { state := moved.1
    i := moved.2
    j := if mixing.j + 1 ≥ key.length then 0 else mixing.j + 1
    length_state := by
      rw [length_advance, List.length_set]
      exact mixing.length_state }

def mixPlaces (mixing : Mixing) : Mixing :=
  let previous := mixing.state.getD (mixing.i - 1) 0
  let item := (mixing.state.getD mixing.i 0 ^^^
      ((previous ^^^ (previous >>> 30)) * 1566083941)) - UInt32.ofNat mixing.i
  let moved := advance (mixing.state.set mixing.i item) mixing.i
  { state := moved.1
    i := moved.2
    j := mixing.j
    length_state := by
      rw [length_advance, List.length_set]
      exact mixing.length_state }

def make (key : List UInt32) : Mt19937 :=
  let start : Mixing :=
    { state := knuthState, i := 1, j := 0, length_state := length_knuthState }
  let mixed := (mixKey key)^[max key.length 624] start
  let final := mixPlaces^[623] mixed
  { state := final.state.set 0 0x80000000
    index := 624
    length_state := by
      rw [List.length_set]
      exact final.length_state }

def twist (state : List UInt32) (i : Nat) : UInt32 :=
  let y := (state.getD i 0 &&& 0x80000000) ||| (state.getD ((i + 1) % 624) 0 &&& 0x7fffffff)
  let item := state.getD ((i + 397) % 624) 0 ^^^ (y >>> 1)
  if y &&& 1 ≠ 0 then item ^^^ 0x9908b0df else item

def refill (generator : Mt19937) : Mt19937 :=
  { state := fillUp twist 624 0 generator.state
    index := 0
    length_state := by
      rw [length_fillUp]
      exact generator.length_state }

def temper (y : UInt32) : UInt32 :=
  let y := y ^^^ (y >>> 11)
  let y := y ^^^ ((y <<< 7) &&& 0x9d2c5680)
  let y := y ^^^ ((y <<< 15) &&& 0xefc60000)
  y ^^^ (y >>> 18)

def next (generator : Mt19937) : UInt32 × Mt19937 :=
  let ready := if generator.index ≥ 624 then generator.refill else generator
  (temper (ready.state.getD ready.index 0), { ready with index := ready.index + 1 })

def recurrenceWindow : Window where
  size := 624
  lag := 397
  one_lt_size := by decide
  lag_lt_size := by decide

/-- The upper bit of one word joined with the lower bits of the next, shifted, on a third. -/
def recurrenceRule (word following lagged : UInt32) : UInt32 :=
  lagged ^^^ (((word &&& 0x80000000) ||| (following &&& 0x7fffffff)) >>> 1) ^^^
    (if following &&& 1 ≠ 0 then 0x9908b0df else 0)

theorem joined_low_bit (word following : UInt32) :
    ((word &&& 0x80000000) ||| (following &&& 0x7fffffff)) &&& 1 = following &&& 1 := by
  apply UInt32.toBitVec_inj.mp
  simp only [UInt32.toBitVec_and, UInt32.toBitVec_or]
  apply BitVec.eq_of_getLsbD_eq
  intro i hi
  simp only [BitVec.getLsbD_and, BitVec.getLsbD_or]
  cases i with
  | zero =>
      have hupper : (0x80000000 : UInt32).toBitVec.getLsbD 0 = false := by decide
      have hlower : (0x7fffffff : UInt32).toBitVec.getLsbD 0 = true := by decide
      rw [hupper, hlower, Bool.and_false, Bool.false_or, Bool.and_true]
  | succ i =>
      have hone : (1 : UInt32).toBitVec.getLsbD (i + 1) = false := by
        change (1#32).getLsbD (i + 1) = false
        rw [BitVec.getLsbD_one]
        simp
      rw [hone, Bool.and_false, Bool.and_false]

theorem twist_eq : twist = recurrenceWindow.blockItem recurrenceRule := by
  funext state i
  change twist state i = recurrenceRule (state.getD i 0) (state.getD ((i + 1) % 624) 0)
    (state.getD ((i + 397) % 624) 0)
  rw [twist, recurrenceRule, joined_low_bit]
  split
  · rfl
  · exact (UInt32.xor_zero).symm

/-- The generator is at a place of the stream: its block holds one window, and the index
says how far into it the stream has been given out. -/
structure At (stream : Nat → UInt32) (place : Nat) (generator : Mt19937) : Prop where
  exists_block : ∃ base, recurrenceWindow.Holds stream base generator.state ∧
    base + generator.index = place
  index_le : generator.index ≤ 624

variable {stream : Nat → UInt32} {place : Nat} {generator : Mt19937}

theorem At.refill (hfollows : recurrenceWindow.Follows recurrenceRule stream)
    (hat : At stream place generator) (hfull : generator.index ≥ 624) :
    At stream place generator.refill := by
  obtain ⟨⟨base, hholds, hplace⟩, hle⟩ := hat
  have hindex : generator.index = 624 := by omega
  refine ⟨⟨base + 624, ?_, ?_⟩, Nat.zero_le 624⟩
  · have hnext := hholds.nextBlock hfollows
    have hsize : recurrenceWindow.size = 624 := rfl
    have hstate : generator.refill.state = fillUp twist 624 0 generator.state := by
      rw [Mt19937.refill]
    rw [Window.nextBlock, ← twist_eq, hsize] at hnext
    rw [hstate]
    exact hnext
  · rw [← hplace, hindex]
    rfl

theorem At.next (hfollows : recurrenceWindow.Follows recurrenceRule stream)
    (hat : At stream place generator) :
    generator.next.1 = temper (stream place) ∧ At stream (place + 1) generator.next.2 := by
  have hready : ∃ ready : Mt19937, At stream place ready ∧ ready.index < 624 ∧
      generator.next = (temper (ready.state.getD ready.index 0),
        { ready with index := ready.index + 1 }) := by
    by_cases hfull : generator.index ≥ 624
    · refine ⟨generator.refill, hat.refill hfollows hfull, Nat.zero_lt_succ 623, ?_⟩
      rw [Mt19937.next, if_pos hfull]
    · refine ⟨generator, hat, by omega, ?_⟩
      rw [Mt19937.next, if_neg hfull]
  obtain ⟨ready, ⟨⟨base, hholds, hplace⟩, -⟩, hlt, hnext⟩ := hready
  rw [hnext]
  constructor
  · change temper (ready.state.getD ready.index 0) = _
    rw [List.getD_eq_getElem?_getD, hholds ready.index hlt, Option.getD_some, hplace]
  · refine ⟨⟨base, hholds, ?_⟩, hlt⟩
    change base + (ready.index + 1) = place + 1
    rw [← hplace, Nat.add_assoc]

def after (generator : Mt19937) (calls : Nat) : Mt19937 :=
  (fun generator => generator.next.2)^[calls] generator

theorem At.after (hfollows : recurrenceWindow.Follows recurrenceRule stream) (calls : Nat) :
    ∀ {place : Nat} {generator : Mt19937}, At stream place generator →
      At stream (place + calls) (generator.after calls) := by
  induction calls with
  | zero => exact fun hat => hat
  | succ calls ih =>
      intro place generator hat
      have hrest := ih (hat.next hfollows).2
      rw [Nat.add_right_comm] at hrest
      exact hrest

/-- Before its first call a generator is at the end of its seeded window. -/
theorem at_make (key : List UInt32) (hstream : ∀ k < 624,
    stream k = (make key).state.getD k 0) : At stream 624 (make key) := by
  refine ⟨⟨0, ?_, rfl⟩, Nat.le_refl 624⟩
  intro j hj
  have hinside : j < (make key).state.length := by
    rw [(make key).length_state]
    exact hj
  rw [Nat.zero_add, hstream j hj, List.getD_eq_getElem?_getD,
    List.getElem?_eq_getElem hinside, Option.getD_some]

def words (key : List UInt32) : Nat → UInt32 :=
  recurrenceWindow.stream recurrenceRule fun k => (make key).state.getD k 0

theorem next_eq_temper_words (key : List UInt32) (_hkey : key ≠ []) :
    (∀ k < 624, (make key).state[k]? = some (words key k)) ∧
      (∀ k, words key (k + 624) = words key (k + 397) ^^^
        (((words key k &&& 0x80000000) ||| (words key (k + 1) &&& 0x7fffffff)) >>> 1) ^^^
        (if words key (k + 1) &&& 1 ≠ 0 then 0x9908b0df else 0)) ∧
      ∀ n, ((make key).after n).next.1 = temper (words key (624 + n)) := by
  have hfollows : recurrenceWindow.Follows recurrenceRule (words key) :=
    Window.stream_follows _
  have hmake : At (words key) 624 (make key) :=
    at_make key fun k hk => Window.stream_of_lt _ hk
  refine ⟨?_, hfollows, fun n => ((hmake.after hfollows n).next hfollows).1⟩
  intro k hk
  obtain ⟨base, hholds, hplace⟩ := hmake.exists_block
  have hbase : base = 0 := Nat.add_right_cancel (hplace.trans (Nat.zero_add 624).symm)
  rw [hholds k hk, hbase, Nat.zero_add]

theorem next_eq_temper_words_sample :
    ((make [0x123, 0x234]).after 624).next.1 = temper (words [0x123, 0x234] (624 + 624)) :=
  (next_eq_temper_words [0x123, 0x234] (by decide)).2.2 624

end Mt19937

end MoonBoofuzz
