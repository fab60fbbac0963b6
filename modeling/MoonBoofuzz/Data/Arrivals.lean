import Mathlib.Data.List.TakeDrop

namespace MoonBoofuzz

/-! Items that arrive over a connection piece by piece, and readers that go by what has arrived
so far. -/

variable {α β ε : Type*}

inductive Arrival (ε α : Type*) where
  | data (items : List α)
  /-- Nothing arrives in time. -/
  | stall
  /-- The connection breaks while the receiver waits. -/
  | lost (error : ε)
  /-- The connection breaks while the receiver takes what has arrived. -/
  | broken (error : ε)
  deriving Repr, DecidableEq

/-- All that arrives until the sender closes the connection. -/
abbrev Arrivals (ε α : Type*) := List (Arrival ε α)

namespace Arrivals

def items : Arrival ε α → List α
  | .data items => items
  | _ => []

def stream (arrivals : Arrivals ε α) : List α := arrivals.flatMap items

/-- Every piece holds items, and nothing stalls or breaks. -/
def Flows (arrivals : Arrivals ε α) : Prop :=
  ∀ arrival ∈ arrivals, ∃ items, arrival = .data items ∧ items ≠ []

/-- What a receiver can still take steps on. -/
def weight : Arrivals ε α → Nat
  | [] => 0
  | arrival :: rest => (items arrival).length + 1 + weight rest

/-- Whether something is there to be taken, the end of the connection included. -/
def await : Arrivals ε α → Except ε Bool × Arrivals ε α
  | .stall :: rest => (.ok false, rest)
  | .lost error :: rest => (.error error, rest)
  | arrivals => (.ok true, arrivals)

/-- At most so many of the items that are there.  What is left of a piece stays. -/
def receive (capacity : Nat) : Arrivals ε α → Except ε (List α) × Arrivals ε α
  | .data items :: rest =>
      (.ok (items.take capacity),
        if items.length ≤ capacity then rest else .data (items.drop capacity) :: rest)
  | .broken error :: rest => (.error error, rest)
  | arrivals => (.ok [], arrivals)

@[simp] theorem stream_nil : stream ([] : Arrivals ε α) = [] := rfl

@[simp] theorem stream_cons (arrival : Arrival ε α) (rest : Arrivals ε α) :
    stream (arrival :: rest) = items arrival ++ stream rest := List.flatMap_cons

theorem weight_cons (arrival : Arrival ε α) (rest : Arrivals ε α) :
    weight (arrival :: rest) = (items arrival).length + 1 + weight rest := rfl

theorem Flows.tail {arrival : Arrival ε α} {rest : Arrivals ε α}
    (hflows : Flows (arrival :: rest)) : Flows rest :=
  fun later hlater => hflows later (List.mem_cons_of_mem arrival hlater)

section

variable {arrivals waited rest : Arrivals ε α} {capacity : Nat} {taken : List α}

theorem not_flows_of_await_false (hawait : await arrivals = (.ok false, waited)) :
    ¬Flows arrivals := by
  unfold await at hawait
  split at hawait
  · intro hflows
    obtain ⟨items, hdata, -⟩ := hflows .stall List.mem_cons_self
    cases hdata
  · cases hawait
  · cases hawait

theorem not_flows_of_await_error {error : ε} (hawait : await arrivals = (.error error, waited)) :
    ¬Flows arrivals := by
  unfold await at hawait
  split at hawait
  · cases hawait
  · rename_i lost _
    intro hflows
    obtain ⟨items, hdata, -⟩ := hflows (.lost lost) List.mem_cons_self
    cases hdata
  · cases hawait

theorem not_flows_of_receive_error {error : ε}
    (hreceive : receive capacity arrivals = (.error error, rest)) : ¬Flows arrivals := by
  unfold receive at hreceive
  split at hreceive
  · cases hreceive
  · rename_i broken _
    intro hflows
    obtain ⟨items, hdata, -⟩ := hflows (.broken broken) List.mem_cons_self
    cases hdata
  · cases hreceive

theorem receive_stream (hreceive : receive capacity arrivals = (.ok taken, rest)) :
    stream arrivals = taken ++ stream rest := by
  unfold receive at hreceive
  split at hreceive
  · rename_i items later
    obtain ⟨htaken, rfl⟩ := Prod.mk.inj hreceive
    obtain rfl := Except.ok.inj htaken
    split
    · rename_i hall
      rw [List.take_of_length_le hall]
      rfl
    · rw [stream_cons, stream_cons, Arrivals.items, Arrivals.items, ← List.append_assoc,
        List.take_append_drop]
  · cases hreceive
  · obtain ⟨htaken, rfl⟩ := Prod.mk.inj hreceive
    obtain rfl := Except.ok.inj htaken
    rfl

theorem receive_flows (hreceive : receive capacity arrivals = (.ok taken, rest))
    (hflows : Flows arrivals) : Flows rest := by
  unfold receive at hreceive
  split at hreceive
  · rename_i items later
    obtain ⟨-, rfl⟩ := Prod.mk.inj hreceive
    split
    · exact hflows.tail
    · rename_i hmore
      intro arrival hmem
      rcases List.mem_cons.mp hmem with rfl | hmem
      · refine ⟨_, rfl, fun hdrop => hmore ?_⟩
        exact List.drop_eq_nil_iff.mp hdrop
      · exact hflows.tail arrival hmem
  · cases hreceive
  · obtain ⟨-, rfl⟩ := Prod.mk.inj hreceive
    exact hflows

theorem receive_weight (hreceive : receive capacity arrivals = (.ok taken, rest))
    (htaken : taken ≠ []) : weight rest < weight arrivals := by
  unfold receive at hreceive
  split at hreceive
  · rename_i items later
    obtain ⟨hitems, rfl⟩ := Prod.mk.inj hreceive
    obtain rfl := Except.ok.inj hitems
    have hpositive := List.length_pos_iff.mpr htaken
    rw [List.length_take] at hpositive
    rw [weight_cons, Arrivals.items]
    split
    · omega
    · rw [weight_cons, Arrivals.items, List.length_drop]
      omega
  · cases hreceive
  · obtain ⟨hitems, -⟩ := Prod.mk.inj hreceive
    exact absurd (Except.ok.inj hitems).symm htaken

theorem receive_length (hreceive : receive capacity arrivals = (.ok taken, rest)) :
    taken.length ≤ capacity := by
  unfold receive at hreceive
  split at hreceive
  · rename_i items later
    obtain ⟨hitems, -⟩ := Prod.mk.inj hreceive
    obtain rfl := Except.ok.inj hitems
    exact List.length_take_le capacity items
  · cases hreceive
  · obtain ⟨hitems, -⟩ := Prod.mk.inj hreceive
    obtain rfl := Except.ok.inj hitems
    exact Nat.zero_le capacity

theorem receive_empty (hreceive : receive capacity arrivals = (.ok [], rest))
    (hflows : Flows arrivals) (hcapacity : 0 < capacity) : stream arrivals = [] := by
  cases arrivals with
  | nil => rfl
  | cons arrival later =>
      obtain ⟨items, rfl, hfilled⟩ := hflows arrival List.mem_cons_self
      obtain ⟨hitems, -⟩ := Prod.mk.inj hreceive
      rcases List.take_eq_nil_iff.mp (Except.ok.inj hitems) with hnone | hempty
      · omega
      · exact absurd hempty hfilled

end

end Arrivals

def Stable (verdict : List α → Option β) : Prop :=
  ∀ {front : List α} {result : β}, verdict front = some result →
    ∀ rest, verdict (front ++ rest) = some result

/-- What a reader comes to that has taken some items and goes on to take what arrives: where
everything flows, the verdict on the whole stream, and otherwise that verdict, an error or
what it says of a connection that ends early. -/
structure Comes (verdict : List α → Option β) (closing : β) (front : List α)
    (arrivals : Arrivals ε α) (answer : Except ε β) : Prop where
  flowing : Arrivals.Flows arrivals →
    answer = .ok ((verdict (front ++ Arrivals.stream arrivals)).getD closing)
  anyway : ∀ {result : β}, answer = .ok result →
    result = closing ∨ verdict (front ++ Arrivals.stream arrivals) = some result

section

variable {verdict : List α → Option β} {closing result : β} {front taken : List α}
  {arrivals rest : Arrivals ε α} {answer : Except ε β} {capacity : Nat}

theorem Comes.settled (hstable : Stable verdict) (hresult : verdict front = some result) :
    Comes verdict closing front arrivals (.ok result) where
  flowing := fun _ => by rw [hstable hresult, Option.getD_some]
  anyway := fun hanswer => Or.inr (Except.ok.inj hanswer ▸ hstable hresult _)

theorem Comes.stalled (hstalled : ¬Arrivals.Flows arrivals) :
    Comes verdict closing front arrivals (.ok closing) where
  flowing := fun hflows => absurd hflows hstalled
  anyway := fun hanswer => Or.inl (Except.ok.inj hanswer).symm

theorem Comes.raised {error : ε} (hbroken : ¬Arrivals.Flows arrivals) :
    Comes verdict closing front arrivals (.error error) where
  flowing := fun hflows => absurd hflows hbroken
  anyway := by
    intro result herror
    cases herror

theorem Comes.ended (hreceive : Arrivals.receive capacity arrivals = (.ok [], rest))
    (hcapacity : 0 < capacity) (hopen : verdict front = none) :
    Comes verdict closing front arrivals (.ok closing) where
  flowing := fun hflows => by
    rw [Arrivals.receive_empty hreceive hflows hcapacity, List.append_nil, hopen,
      Option.getD_none]
  anyway := fun hanswer => Or.inl (Except.ok.inj hanswer).symm

theorem Comes.more (hreceive : Arrivals.receive capacity arrivals = (.ok taken, rest))
    (hcomes : Comes verdict closing (front ++ taken) rest answer) :
    Comes verdict closing front arrivals answer where
  flowing := fun hflows => by
    rw [Arrivals.receive_stream hreceive, ← List.append_assoc]
    exact hcomes.flowing (Arrivals.receive_flows hreceive hflows)
  anyway := fun hanswer => by
    rw [Arrivals.receive_stream hreceive, ← List.append_assoc]
    exact hcomes.anyway hanswer

end

end MoonBoofuzz
