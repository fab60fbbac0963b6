import MoonBoofuzz.Data.Unicode
import MoonBoofuzz.Web.Raw

namespace MoonBoofuzz

open Text Web

namespace StatefulTarget

/-! The target that speaks HELLO, AUTH and DATA, one line after the other. -/

def line (literal : String) : Bytes := encodeUtf8 (ofAscii literal)

/-- The next line, with the bytes that are left of the pieces received so far. -/
def readLine (conn : RawConn) (pending : Bytes) :
    Except WebError (Option (Bytes × Bytes × RawConn)) :=
  match pending.idxOf? 10 with
  | some index =>
      if index < 512 then .ok (some (pending.take (index + 1), pending.drop (index + 1), conn))
      else .ok none
  | none =>
      if 512 ≤ pending.length then .ok none
      else
        match RawConn.wait conn with
        | (.error error, _) => .error error
        | (.ok false, _) => .ok none
        | (.ok true, _) =>
            match _ : RawConn.recv 256 0 conn with
            | (.error error, _) => .error error
            | (.ok bytes, rest) =>
                if _ : bytes = [] then .ok none else readLine rest (pending ++ bytes)
termination_by Arrivals.weight conn
decreasing_by exact RawConn.recv_weight ‹_› ‹_›

/-- What a step writes, and where the connection stands if it goes on. -/
abbrev Stepped := List Bytes × Option (RawConn × Bytes)

def expectStep (conn : RawConn) (pending expected reply : Bytes) : Stepped :=
  match readLine conn pending with
  | .ok (some (read, left, rest)) =>
      if read = expected then ([reply], some (rest, left)) else ([line "ERR\n"], none)
  | _ => ([], none)

/-- The last step, which takes one of two lines. -/
def dataStep (conn : RawConn) (pending : Bytes) : List Bytes :=
  match readLine conn pending with
  | .ok (some (read, _, _)) =>
      if read = line "DATA one\n" ∨ read = line "DATA two\n" then [line "DATA-OK\n"]
      else [line "ERR\n"]
  | _ => []

/-- All that `serve_connection` writes.  An error ends the connection. -/
def serveConnection (conn : RawConn) : List Bytes :=
  match expectStep conn [] (line "HELLO\n") (line "HELLO-OK\n") with
  | (written, none) => written
  | (written, some (conn, pending)) =>
      match expectStep conn pending (line "AUTH test\n") (line "AUTH-OK\n") with
      | (later, none) => written ++ later
      | (later, some (conn, pending)) => written ++ later ++ dataStep conn pending

def cutLine (stream : Bytes) : Option (Bytes × Bytes) :=
  match stream.idxOf? 10 with
  | some index =>
      if index < 512 then some (stream.take (index + 1), stream.drop (index + 1)) else none
  | none => none

/-- The replies to lines that are expected in turn. -/
def replies : List (List Bytes × Bytes) → Bytes → List Bytes
  | [], _ => []
  | (expected, reply) :: steps, stream =>
      match cutLine stream with
      | none => []
      | some (read, left) =>
          if read ∈ expected then reply :: replies steps left else [line "ERR\n"]

def steps : List (List Bytes × Bytes) :=
  [([line "HELLO\n"], line "HELLO-OK\n"), ([line "AUTH test\n"], line "AUTH-OK\n"),
    ([line "DATA one\n", line "DATA two\n"], line "DATA-OK\n")]

variable {conn : RawConn} {pending : Bytes}

theorem idxOf?_append {front : Bytes} {index : Nat} (rest : Bytes)
    (hfound : front.idxOf? 10 = some index) :
    (front ++ rest).idxOf? 10 = some index ∧ index < front.length := by
  obtain ⟨hlt, hfeed, hfirst⟩ := List.idxOf?_eq_some_iff.mp hfound
  refine ⟨List.idxOf?_eq_some_iff.mpr ⟨by rw [List.length_append]; omega, ?_, fun j hj => ?_⟩, hlt⟩
  · rw [List.getElem_append_left hlt, hfeed]
  · rw [List.getElem_append_left (Nat.lt_trans hj hlt)]
    exact hfirst j hj

theorem cutLine_append {front read left : Bytes} (hcut : cutLine front = some (read, left))
    (rest : Bytes) : cutLine (front ++ rest) = some (read, left ++ rest) := by
  unfold cutLine at hcut ⊢
  cases hfound : front.idxOf? 10 with
  | none => rw [hfound] at hcut; cases hcut
  | some index =>
      obtain ⟨hwhole, hlt⟩ := idxOf?_append rest hfound
      rw [hfound] at hcut
      rw [hwhole]
      dsimp only at hcut ⊢
      split at hcut
      · rename_i hshort
        obtain ⟨rfl, rfl⟩ := Prod.mk.inj (Option.some.inj hcut)
        rw [if_pos hshort, List.take_append_of_le_length hlt, List.drop_append_of_le_length hlt]
      · cases hcut

theorem cutLine_long {front : Bytes} (hnone : front.idxOf? 10 = none) (hlong : 512 ≤ front.length)
    (rest : Bytes) : cutLine (front ++ rest) = none := by
  rw [cutLine]
  cases hfound : (front ++ rest).idxOf? 10 with
  | none => rfl
  | some index =>
      obtain ⟨hlt, hfeed, -⟩ := List.idxOf?_eq_some_iff.mp hfound
      have hbeyond : front.length ≤ index := by
        by_contra hwithin
        rw [List.getElem_append_left (Nat.not_le.mp hwithin)] at hfeed
        exact List.idxOf?_eq_none_iff.mp hnone (hfeed ▸ List.getElem_mem _)
      exact if_neg (by omega)

def ReadsLine (stream : Bytes) (flows : Prop) :
    Except WebError (Option (Bytes × Bytes × RawConn)) → Prop
  | .error _ => ¬flows
  | .ok none => flows → cutLine stream = none
  | .ok (some (read, left, rest)) =>
      cutLine stream = some (read, left ++ Arrivals.stream rest) ∧ (flows → Arrivals.Flows rest)

theorem ReadsLine.mono {stream : Bytes} {flows flows' : Prop}
    {answer : Except WebError (Option (Bytes × Bytes × RawConn))} (himp : flows' → flows)
    (hreads : ReadsLine stream flows answer) : ReadsLine stream flows' answer := by
  unfold ReadsLine at hreads ⊢
  split at hreads
  · exact fun hflows => hreads (himp hflows)
  · exact fun hflows => hreads (himp hflows)
  · exact ⟨hreads.1, fun hflows => hreads.2 (himp hflows)⟩

theorem readLine_reads (conn : RawConn) (pending : Bytes) :
    ReadsLine (pending ++ Arrivals.stream conn) (Arrivals.Flows conn) (readLine conn pending) := by
  fun_induction readLine conn pending with
  | case1 conn pending index hfound hshort =>
      have hcut : cutLine pending =
          some (pending.take (index + 1), pending.drop (index + 1)) := by
        rw [cutLine, hfound]
        exact if_pos hshort
      exact ⟨cutLine_append hcut _, id⟩
  | case2 conn pending index hfound hlong =>
      intro hflows
      rw [cutLine, (idxOf?_append _ hfound).1]
      exact if_neg hlong
  | case3 conn pending hnone hlong => exact fun hflows => cutLine_long hnone hlong _
  | case4 conn pending hnone hshort error waited hwait =>
      exact Arrivals.not_flows_of_await_error hwait
  | case5 conn pending hnone hshort waited hwait =>
      exact fun hflows => absurd hflows (Arrivals.not_flows_of_await_false hwait)
  | case6 conn pending hnone hshort waited hwait error rest hrecv =>
      exact Arrivals.not_flows_of_receive_error hrecv
  | case7 conn pending hnone hshort waited hwait rest hrecv =>
      intro hflows
      rw [Arrivals.receive_empty hrecv hflows (by decide), List.append_nil, cutLine, hnone]
  | case8 conn pending hnone hshort waited hwait bytes rest hrecv hfilled ih =>
      rw [Arrivals.receive_stream hrecv, ← List.append_assoc]
      exact ih.mono (Arrivals.receive_flows hrecv)

/-- What is written is a beginning of what is called for, and all of it where everything flows. -/
structure Answers (written wanted : List Bytes) (flows : Prop) : Prop where
  beginning : written <+: wanted
  all : flows → written = wanted

theorem Answers.silent {wanted : List Bytes} {flows : Prop} (hquiet : flows → wanted = []) :
    Answers [] wanted flows :=
  ⟨List.nil_prefix, fun hflows => (hquiet hflows).symm⟩

theorem Answers.exact (wanted : List Bytes) (flows : Prop) : Answers wanted wanted flows :=
  ⟨List.prefix_refl wanted, fun _ => rfl⟩

theorem Answers.append {later wanted : List Bytes} {flows flows' : Prop} (written : List Bytes)
    (himp : flows → flows') (hanswers : Answers later wanted flows') :
    Answers (written ++ later) (written ++ wanted) flows where
  beginning := (List.prefix_append_right_inj written).mpr hanswers.beginning
  all := fun hflows => congrArg (written ++ ·) (hanswers.all (himp hflows))

/-- A step of the target against a step of the conversation: it is the last one, or another one
follows on what is left. -/
theorem expectStep_answers {expected reply : Bytes} (later : List (List Bytes × Bytes))
    (conn : RawConn) (pending : Bytes) :
    (∃ written, expectStep conn pending expected reply = (written, none) ∧
      Answers written (replies (([expected], reply) :: later) (pending ++ Arrivals.stream conn))
        (Arrivals.Flows conn)) ∨
    ∃ rest left, expectStep conn pending expected reply = ([reply], some (rest, left)) ∧
      replies (([expected], reply) :: later) (pending ++ Arrivals.stream conn) =
        [reply] ++ replies later (left ++ Arrivals.stream rest) ∧
      (Arrivals.Flows conn → Arrivals.Flows rest) := by
  have hreads := readLine_reads conn pending
  unfold expectStep
  cases hread : readLine conn pending with
  | error error =>
      rw [hread] at hreads
      exact Or.inl ⟨[], rfl, Answers.silent fun hflows => absurd hflows hreads⟩
  | ok found =>
      rw [hread] at hreads
      cases found with
      | none =>
          refine Or.inl ⟨[], rfl, Answers.silent fun hflows => ?_⟩
          rw [replies, hreads hflows]
      | some found =>
          obtain ⟨read, left, rest⟩ := found
          obtain ⟨hcut, hflows⟩ := hreads
          rw [replies, hcut]
          simp only [List.mem_singleton]
          split
          · exact Or.inr ⟨rest, left, rfl, rfl, hflows⟩
          · exact Or.inl ⟨_, rfl, Answers.exact _ _⟩

theorem dataStep_answers (conn : RawConn) (pending : Bytes) :
    Answers (dataStep conn pending)
      (replies [([line "DATA one\n", line "DATA two\n"], line "DATA-OK\n")]
        (pending ++ Arrivals.stream conn)) (Arrivals.Flows conn) := by
  have hreads := readLine_reads conn pending
  unfold dataStep
  cases hread : readLine conn pending with
  | error error =>
      rw [hread] at hreads
      exact Answers.silent fun hflows => absurd hflows hreads
  | ok found =>
      rw [hread] at hreads
      cases found with
      | none =>
          refine Answers.silent fun hflows => ?_
          rw [replies, hreads hflows]
      | some found =>
          obtain ⟨read, left, rest⟩ := found
          rw [replies, hreads.1]
          simp only [List.mem_cons, List.not_mem_nil, or_false]
          split
          · exact Answers.exact _ _
          · exact Answers.exact _ _

theorem serveConnection_answers (conn : RawConn) :
    Answers (serveConnection conn) (replies steps (Arrivals.stream conn))
      (Arrivals.Flows conn) := by
  unfold serveConnection steps
  rcases expectStep_answers _ conn [] with ⟨written, hstep, hanswers⟩ |
    ⟨rest, left, hstep, hreplies, hflows⟩
  · rw [hstep]
    exact hanswers
  · rw [hstep, ← List.nil_append (Arrivals.stream conn), hreplies]
    dsimp only
    rcases expectStep_answers _ rest left with ⟨written, hnext, hanswers⟩ |
      ⟨last, pending, hnext, hmore, hlast⟩
    · rw [hnext]
      exact hanswers.append _ hflows
    · rw [hnext, hmore]
      dsimp only
      rw [List.append_assoc]
      exact ((dataStep_answers last pending).append _ hlast).append _ hflows

theorem cutLine_eq_some {stream read left : Bytes} (hcut : cutLine stream = some (read, left)) :
    stream = read ++ left := by
  unfold cutLine at hcut
  split at hcut
  · split at hcut
    · obtain ⟨rfl, rfl⟩ := Prod.mk.inj (Option.some.inj hcut)
      exact (List.take_append_drop _ stream).symm
    · cases hcut
  · cases hcut

theorem replies_mem {first : List Bytes × Bytes} {later : List (List Bytes × Bytes)}
    {stream reply : Bytes} (hreply : reply ∈ replies (first :: later) stream)
    (herror : reply ≠ line "ERR\n") :
    ∃ read ∈ first.1, ∃ left, stream = read ++ left ∧
      (reply = first.2 ∨ reply ∈ replies later left) := by
  rw [replies] at hreply
  split at hreply
  · cases hreply
  · rename_i read left hcut
    split at hreply
    · rename_i hexpected
      exact ⟨read, hexpected, left, cutLine_eq_some hcut, List.mem_cons.mp hreply⟩
    · exact absurd (List.mem_singleton.mp hreply) herror

/-- What the target writes is what the bytes of the connection call for, however they are cut into
pieces, or a beginning of it where the connection stalls or breaks; and no data is taken before
both lines that open the conversation. -/
theorem serveConnection_replies (conn : RawConn) :
    serveConnection conn <+: replies steps (Arrivals.stream conn) ∧
      (Arrivals.Flows conn → serveConnection conn = replies steps (Arrivals.stream conn)) ∧
      (line "DATA-OK\n" ∈ serveConnection conn →
        line "HELLO\n" ++ line "AUTH test\n" ++ line "DATA one\n" <+: Arrivals.stream conn ∨
          line "HELLO\n" ++ line "AUTH test\n" ++ line "DATA two\n" <+: Arrivals.stream conn) := by
  have hanswers := serveConnection_answers conn
  refine ⟨hanswers.beginning, hanswers.all, fun hdata => ?_⟩
  have hreply := hanswers.beginning.subset hdata
  obtain ⟨hello, hfirst, rest, hstream, hlater⟩ := replies_mem hreply (by decide)
  obtain ⟨auth, hsecond, left, hrest, hlast⟩ :=
    replies_mem (hlater.resolve_left (by decide)) (by decide)
  obtain ⟨data, hthird, more, hleft, -⟩ := replies_mem (hlast.resolve_left (by decide)) (by decide)
  obtain rfl := List.mem_singleton.mp hfirst
  obtain rfl := List.mem_singleton.mp hsecond
  rw [hstream, hrest, hleft]
  simp only [List.mem_cons, List.not_mem_nil, or_false] at hthird
  rcases hthird with rfl | rfl
  · exact Or.inl ⟨more, by simp only [List.append_assoc]⟩
  · exact Or.inr ⟨more, by simp only [List.append_assoc]⟩

end StatefulTarget

end MoonBoofuzz
