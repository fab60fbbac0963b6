import MoonBoofuzz.Data.Utf8
import MoonBoofuzz.Fields.Checked

namespace MoonBoofuzz

/-! Text fields: the library of bad strings, variable repeats and long strings. -/

/-- `String::repeat`. -/
def Text.repeatTimes (text : Text) (count : Nat) : Text := (List.replicate count text).flatten

def Bytes.held? (bytes : Bytes) : Option Bytes :=
  if bytes.length < 2147483648 then some bytes else none

inductive TextCandidate where
  | literal (bytes : Bytes)
  /-- Whole repetitions, and the length of a last part in bytes. -/
  | repeated (seed : Bytes) (copies rest : Nat)
  | terminator (size position : Int)
  deriving DecidableEq

namespace TextCandidate

def render? : TextCandidate → Option Bytes
  | literal bytes => some bytes
  | repeated seed copies rest =>
      if rest ≤ seed.length then (seed.repeatTimes copies ++ seed.take rest).held? else none
  | terminator size position =>
      some (Bytes.repeatTimes [0x44] position ++ [0x00] ++
        Bytes.repeatTimes [0x44] (size - position - 1))

/-- The 64-bit products of 32-bit numbers stay exact. -/
def length : TextCandidate → Int
  | literal bytes => bytes.length
  | repeated seed copies rest => seed.length * copies + rest
  | terminator size _ => size

end TextCandidate

/-- `string_library`, which a script generates. -/
structure StringLibrary where
  texts : List Text
  length_texts : texts.length = 109

def stringSeeds : List Text :=
  ["C", "1", "<", ">", "'", "\"", "/", "\\", "?", "=", "a=", "&", ".", ",", "(", ")", "]", "[",
   "%", "*", "-", "+", "\x7b", "\x7d"].map Text.ofAscii ++ [[0x14], [0x00], [0xfe], [0xff]]

def stringNullIndices : List (List Int) :=
  [[6, 0, 2, 4, 3, 1, 5], [13, 12, 9, 14, 15, 11, 8, 10], [20, 31, 17, 27, 29],
   [62, 49, 35, 43, 45, 42], [125, 120, 97, 71], [151], [256, 508, 426, 380, 422, 288, 353],
   [756, 657, 970, 605], [1679, 2026], [3282, 3240], [22034, 14999],
   [64351, 58963, 52533, 50699]]

def longLengths : List Nat := [8, 16, 32, 64, 128, 256, 512, 1024, 2048, 4096, 32768, 65535]

def repeatedTo (seed : Text) (n : Nat) : TextCandidate :=
  .repeated seed.encodeUtf8 (n / seed.length) (n % seed.length)

def longCandidates (seed : Text) : List TextCandidate :=
  (longLengths.flatMap fun length =>
    (List.range 5).map fun step => repeatedTo seed (length + step - 2)) ++
  [99999, 100000, 500000, 1000000].map (repeatedTo seed)

def terminators : List TextCandidate :=
  (longLengths.zip stringNullIndices).flatMap fun (length, positions) =>
    positions.map fun position => .terminator length position

/-- The repeats of the value that the library does not hold already. -/
def valueRepeats (library : List Text) (value : Text) : List TextCandidate :=
  let maxLibraryChars := library.foldl (fun n item => max n item.length) 0
  [2, 10, 100].filterMap fun n =>
    if value.length > maxLibraryChars / n ∨ ¬ library.contains (value.repeatTimes n) then
      some (.repeated value.encodeUtf8 n 0)
    else none

/-- Drops a candidate that equals the one kept before it. -/
def pushUnlike (unique : List TextCandidate) (candidate : TextCandidate) :
    List TextCandidate :=
  if unique.getLast? ≠ some candidate then unique ++ [candidate] else unique

def textCandidates (library : List Text) (value : Text) : List TextCandidate :=
  (library.map fun text => .literal text.encodeUtf8) ++ valueRepeats library value ++
    stringSeeds.flatMap longCandidates ++ terminators

def delimiterTexts : List Text :=
  [Text.ofAscii " ", Text.ofAscii "\t", (Text.ofAscii "\t ").repeatTimes 100,
   (Text.ofAscii "\t\r\n").repeatTimes 100] ++
  ["!", "@", "#", "$", "%", "^", "&", "*", "(", ")", "\x7b", "\x7d", "[", "]", "-", "_", "+", "=",
   ":"].map Text.ofAscii ++
  [(Text.ofAscii ": ").repeatTimes 100, (Text.ofAscii ":7").repeatTimes 100] ++
  [";", "'", "\"", "/", "\\", "?", "<", ">", ".", ",", "\r", "\n"].map Text.ofAscii ++
  [(Text.ofAscii "\r\n").repeatTimes 64, (Text.ofAscii "\r\n").repeatTimes 128,
   (Text.ofAscii "\r\n").repeatTimes 512]

def delimiterCandidates (value : Text) : List TextCandidate :=
  ([2, 5, 10, 25, 100, 500, 1000].map fun n => .repeated value.encodeUtf8 n 0) ++
  [.literal []] ++
  (if value = Text.ofAscii " " then [1, 2, 100].map fun n => .repeated [0x09] n 0 else []) ++
  delimiterTexts.map fun text => .literal text.encodeUtf8

namespace CheckedField

def textBase (value : Bytes) (candidates : List TextCandidate) (fuzzable : Bool) :
    Flagged CheckedField :=
  counted value candidates.length fuzzable
    (fun i => (at? candidates i).bind TextCandidate.render?)
    fun i => pure ((at? candidates i).map TextCandidate.length)

def delimiter (value : Text) (fuzzable : Bool := true) (fuzzValues : List Bytes := []) :
    Flagged CheckedField := do
  let base ← textBase value.encodeUtf8 (delimiterCandidates value) fuzzable
  base.withFuzzValues fuzzValues fuzzable

def text (library : StringLibrary) (value : Text) (fuzzable : Bool := true)
    (fuzzValues : List Bytes := []) : Flagged CheckedField := do
  let unique := (textCandidates library.texts value).foldl pushUnlike []
  let base ← textBase value.encodeUtf8 unique fuzzable
  base.withFuzzValues fuzzValues fuzzable

end CheckedField

namespace TextCandidate

/-- The last part is a part of the seed, and the zero byte lies in its row. -/
def Sound : TextCandidate → Prop
  | literal _ => True
  | repeated seed _ rest => rest ≤ seed.length
  | terminator size position => 0 ≤ position ∧ position < size

theorem Sound.render {candidate : TextCandidate} (hsound : candidate.Sound)
    (hlength : candidate.length < 2147483648) :
    ∃ bytes, candidate.render? = some bytes ∧ (bytes.length : Int) = candidate.length := by
  cases candidate with
  | literal bytes => exact ⟨bytes, rfl, rfl⟩
  | repeated seed copies rest =>
      have hrest : rest ≤ seed.length := hsound
      have hbytes : ((seed.repeatTimes copies ++ seed.take rest).length : Int) =
          seed.length * copies + rest := by
        rw [List.length_append, Bytes.length_repeatTimes, List.length_take,
          Nat.min_eq_left hrest]
        push_cast
        rfl
      refine ⟨seed.repeatTimes copies ++ seed.take rest, ?_, hbytes⟩
      rw [length] at hlength
      rw [render?, if_pos hrest, Bytes.held?, if_pos (by omega)]
  | terminator size position =>
      obtain ⟨hnonneg, hbelow⟩ := hsound
      obtain ⟨before, rfl⟩ := Int.eq_ofNat_of_zero_le hnonneg
      obtain ⟨after, hafter⟩ := Int.eq_ofNat_of_zero_le
        (show 0 ≤ size - (before : Int) - 1 by omega)
      refine ⟨_, rfl, ?_⟩
      rw [hafter, List.length_append, List.length_append, Bytes.length_repeatTimes,
        Bytes.length_repeatTimes, length]
      push_cast
      simp only [List.length_singleton]
      omega

end TextCandidate

theorem pushUnlike_cases (unique : List TextCandidate) (candidate : TextCandidate) :
    pushUnlike unique candidate = unique ++ [candidate] ∨
      pushUnlike unique candidate = unique := by
  rw [pushUnlike]
  split
  · exact Or.inl rfl
  · exact Or.inr rfl

theorem mem_foldl_pushUnlike {candidate : TextCandidate} : ∀ {given kept : List TextCandidate},
    candidate ∈ given.foldl pushUnlike kept → candidate ∈ kept ∨ candidate ∈ given := by
  intro given
  induction given with
  | nil => exact fun hmem => Or.inl hmem
  | cons next rest ih =>
      intro kept hmem
      rcases ih hmem with hkept | hrest
      · rcases pushUnlike_cases kept next with hpushed | hsame
        · rw [hpushed, List.mem_append, List.mem_singleton] at hkept
          rcases hkept with hearlier | rfl
          · exact Or.inl hearlier
          · exact Or.inr List.mem_cons_self
        · rw [hsame] at hkept
          exact Or.inl hkept
      · exact Or.inr (List.mem_cons_of_mem next hrest)

theorem length_foldl_push_le {push : List α → α → List α}
    (hpush : ∀ kept next, (push kept next).length ≤ kept.length + 1) :
    ∀ {given kept : List α}, (given.foldl push kept).length ≤ kept.length + given.length := by
  intro given
  induction given with
  | nil => exact fun {kept} => Nat.le_refl _
  | cons next rest ih =>
      intro kept
      have hnext := hpush kept next
      have hrest := @ih (push kept next)
      rw [List.length_cons, List.foldl_cons]
      omega

theorem length_pushUnlike_le (kept : List TextCandidate) (next : TextCandidate) :
    (pushUnlike kept next).length ≤ kept.length + 1 := by
  rcases pushUnlike_cases kept next with hpushed | hsame
  · rw [hpushed, List.length_append, List.length_singleton]
  · rw [hsame]
    exact Nat.le_succ _

theorem stringSeeds_length_pos : ∀ seed ∈ stringSeeds, 0 < seed.length := by decide

theorem terminators_sound : ∀ candidate ∈ terminators, candidate.Sound := by
  have hrows : ∀ row ∈ longLengths.zip stringNullIndices, ∀ position ∈ row.2,
      0 ≤ position ∧ position < (row.1 : Int) := by decide
  intro candidate hmem
  obtain ⟨row, hrow, hposition⟩ := List.mem_flatMap.mp hmem
  obtain ⟨position, hplace, rfl⟩ := List.mem_map.mp hposition
  exact hrows row hrow position hplace

/-- A part of a seed counted in code units is no longer than the seed's bytes. -/
theorem repeatedTo_sound {seed : Text} (hseed : 0 < seed.length) (n : Nat) :
    (repeatedTo seed n).Sound := by
  have hrest : n % seed.length < seed.length := Nat.mod_lt n hseed
  have hbytes := Text.length_le_encodeUtf8 seed
  exact Nat.le_trans (Nat.le_of_lt hrest) hbytes

theorem longCandidates_sound {seed : Text} (hseed : 0 < seed.length) :
    ∀ candidate ∈ longCandidates seed, candidate.Sound := by
  intro candidate hmem
  rw [longCandidates, List.mem_append] at hmem
  rcases hmem with hshort | hlong
  · obtain ⟨length, -, hstep⟩ := List.mem_flatMap.mp hshort
    obtain ⟨step, -, rfl⟩ := List.mem_map.mp hstep
    exact repeatedTo_sound hseed _
  · obtain ⟨n, -, rfl⟩ := List.mem_map.mp hlong
    exact repeatedTo_sound hseed n

theorem valueRepeats_sound {library : List Text} {value : Text} :
    ∀ candidate ∈ valueRepeats library value, candidate.Sound := by
  intro candidate hmem
  obtain ⟨n, -, hsome⟩ := List.mem_filterMap.mp hmem
  split at hsome
  · rw [Option.some.injEq] at hsome
    rw [← hsome]
    exact Nat.zero_le _
  · exact absurd hsome (by simp)

theorem textCandidates_sound {library : List Text} {value : Text} :
    ∀ candidate ∈ textCandidates library value, candidate.Sound := by
  intro candidate hmem
  rw [textCandidates, List.mem_append, List.mem_append, List.mem_append] at hmem
  rcases hmem with ((hlibrary | hrepeats) | hlong) | hterminator
  · obtain ⟨text, -, rfl⟩ := List.mem_map.mp hlibrary
    exact trivial
  · exact valueRepeats_sound candidate hrepeats
  · obtain ⟨seed, hseed, hmem⟩ := List.mem_flatMap.mp hlong
    exact longCandidates_sound (stringSeeds_length_pos seed hseed) candidate hmem
  · exact terminators_sound candidate hterminator

theorem delimiterCandidates_sound {value : Text} :
    ∀ candidate ∈ delimiterCandidates value, candidate.Sound := by
  intro candidate hmem
  rw [delimiterCandidates, List.mem_append, List.mem_append, List.mem_append] at hmem
  rcases hmem with ((hrepeats | hempty) | htabs) | htexts
  · obtain ⟨n, -, rfl⟩ := List.mem_map.mp hrepeats
    exact Nat.zero_le _
  · rw [List.mem_singleton.mp hempty]
    exact trivial
  · split at htabs
    · obtain ⟨n, -, rfl⟩ := List.mem_map.mp htabs
      exact Nat.zero_le _
    · exact absurd htabs List.not_mem_nil
  · obtain ⟨text, -, rfl⟩ := List.mem_map.mp htexts
    exact trivial

end MoonBoofuzz
