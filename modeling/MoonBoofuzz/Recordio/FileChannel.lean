import Mathlib.Data.List.TakeWhile
import MoonBoofuzz.Data.Filed
import MoonBoofuzz.Data.Unicode
import MoonBoofuzz.Runner.Config
import MoonBoofuzz.Runner.Run

namespace MoonBoofuzz

/-! The file transport: each message that is sent is written to a numbered file of its own. -/

/-- What becomes of a file that is created for some bytes. -/
inductive Written where
  | whole
  /-- Only the first bytes have come through. -/
  | short (count : Nat) (code : Int)
  /-- The file could not be created. -/
  | refused (code : Int)
  deriving Repr, DecidableEq

structure FileSystem (σ : Type) where
  makeDirectory : Bytes → σ → Int × σ
  write : Bytes → Bytes → σ → Written × σ

/-- The files with their contents, the counter that the channels of a run share, and the last
length that the open one has sent. -/
structure Folder where
  files : Bytes → Option Bytes
  counter : Int32
  lastSent : Int

structure Disk (σ : Type) where
  folder : Folder
  rest : σ

/-- What the system takes for a path: the bytes before the first NUL. -/
def cString (text : Text) : Bytes := (Text.encodeUtf8 text).takeWhile (· ≠ 0)

namespace FileChannel

variable {σ : Type}

def defaultPrefix : Text := Text.ofAscii "case-"

def fileName (directory : Text) (counter : Int32) : Bytes :=
  cString (directory ++ Text.ofAscii "/" ++ defaultPrefix ++ Text.integer counter.toInt)

/-- `FileChannel::send`. -/
def send (system : FileSystem σ) (directory : Text) (bytes : Bytes) :
    Attempt TransportError (Disk σ) Unit := fun disk =>
  let counter := disk.folder.counter + 1
  let name := fileName directory counter
  let (written, rest) := system.write name bytes disk.rest
  match written with
  | .whole =>
      (.ok (), ⟨⟨Function.update disk.folder.files name (some bytes), counter, bytes.length⟩,
        rest⟩)
  | .short count code =>
      (.error (.sendFailure code),
        ⟨⟨Function.update disk.folder.files name (some (bytes.take count)), counter,
          disk.folder.lastSent⟩, rest⟩)
  | .refused code =>
      (.error (.sendFailure code), ⟨{ disk.folder with counter := counter }, rest⟩)

def channel (system : FileSystem σ) (directory : Text) : Channel (Disk σ) where
  send := send system directory
  receive _ _ disk := (.ok .closed, disk)
  lastSentLen disk := disk.folder.lastSent
  close disk := disk

/-- The dialer of `file_runner`: `FileChannel::open`, which makes the directory. -/
def dial (system : FileSystem σ) (directory : Text) :
    Attempt TransportError (Disk σ) (Channel (Disk σ)) := fun disk =>
  let (code, rest) := system.makeDirectory (cString directory) disk.rest
  if code = 0 then
    (.ok (channel system directory), ⟨{ disk.folder with lastSent := 0 }, rest⟩)
  else (.error (.sendFailure (-1)), ⟨disk.folder, rest⟩)

end FileChannel

/-- The arguments of `file_runner` beside the configuration and the paths. -/
structure FileOptions (ω : Type) where
  monitor : Monitor ω
  limit : Int32
  combinatorial : Bool
  maxDepth : Option Int32
  start : Int32
  endIndex : Option Int32
  sleepBetween : Option Int32

namespace FileOptions

variable {σ : Type}

/-- What `file_runner` hands to `Runner::with_dialer`; the other settings are at their
defaults. -/
def settings (options : FileOptions (Disk σ)) (system : FileSystem σ) (clock : Clock (Disk σ))
    (debug : DebugText) (config : ExecutionConfig) (directory : Text) : Settings (Disk σ) where
  dial := FileChannel.dial system directory
  clock := clock
  debug := debug
  policies := config.policies
  receiveLimit := 65536
  receiveTimeout := 5000
  limit := options.limit
  monitor := options.monitor
  mode := if options.combinatorial then .combinatorial (options.maxDepth.map Int32.toInt)
    else .sequential
  vars := some config.vars
  checkDataReceived := config.checkDataReceived
  receiveDataAfterFuzz := false
  ignoreConnectionReset := false
  ignoreConnectionAborted := false
  ignoreConnectionIssuesWhenSendingFuzzData := config.ignoreConnectionIssuesWhenSendingFuzzData
  restartThreshold := config.restartThreshold.map Int32.toInt
  restartTimeoutMs := none
  restartSleepMs := 5000
  sleepBetweenMs := (options.sleepBetween.getD 0).toInt
  crashThresholdRequest := config.crashThresholdRequest.toInt
  crashThresholdElement := config.crashThresholdElement.toInt
  start := options.start
  endIndex := options.endIndex
  udpServer := false

/-- `file_runner`; it aborts on a configuration of another transport. -/
def fileRunner (options : FileOptions (Disk σ)) (system : FileSystem σ) (clock : Clock (Disk σ))
    (debug : DebugText) (config : ExecutionConfig)
    (paths : List (SessionPath (EdgeCallback (Disk σ)))) :
    Option (Except RunError (Runner (Disk σ))) :=
  config.filePath.map fun directory =>
    Runner.withDialer paths (options.settings system clock debug config directory)

end FileOptions

namespace FileChannel

def caseFile (directory : Text) (number : Nat) : Bytes :=
  cString (directory ++ Text.ofAscii "/" ++ defaultPrefix ++ Text.decimal number)

theorem cString_of_clean {text : Text} (hclean : 0 ∉ text) :
    cString text = Text.encodeUtf8 text := by
  apply List.takeWhile_eq_self_iff.mpr
  intro byte hbyte
  rw [decide_eq_true_iff]
  rintro rfl
  obtain ⟨unit, hunit, hzero⟩ := Text.mem_encodeUtf8 (by decide) hbyte
  obtain rfl : unit = 0 := UInt16.toNat_inj.mp hzero
  exact hclean hunit

theorem encodeUtf8_casePath (directory : Text) (number : Nat) :
    Text.encodeUtf8 (directory ++ Text.ofAscii "/" ++ defaultPrefix ++ Text.decimal number) =
      Text.encodeUtf8 directory ++ Text.encodeUtf8 (Text.ofAscii "/" ++ defaultPrefix) ++
        Bytes.decimal number := by
  have hcloses : Text.Closes (Text.ofAscii "/" ++ defaultPrefix) := by
    intro unit hunit
    cases hunit
    rfl
  have hopens : Text.Opens (Text.ofAscii "/" ++ defaultPrefix ++ Text.decimal number) := by
    intro unit hunit
    cases hunit
    rfl
  rw [List.append_assoc, List.append_assoc, ← List.append_assoc (Text.ofAscii "/"),
    Text.encodeUtf8_append (Or.inr hopens), Text.encodeUtf8_append (Or.inl hcloses),
    Text.encodeUtf8_decimal, List.append_assoc]

theorem caseFile_clean {directory : Text} (hclean : 0 ∉ directory) (number : Nat) :
    caseFile directory number = Text.encodeUtf8 directory ++
      Text.encodeUtf8 (Text.ofAscii "/" ++ defaultPrefix) ++ Bytes.decimal number := by
  rw [caseFile, cString_of_clean, encodeUtf8_casePath]
  intro hmem
  rcases List.mem_append.mp hmem with hfront | hdigits
  · rw [List.append_assoc] at hfront
    rcases List.mem_append.mp hfront with hdirectory | hfixed
    · exact hclean hdirectory
    · revert hfixed
      decide
  · have hdigit := (Text.mem_decimal hdigits).1
    exact absurd hdigit (by decide)

theorem caseFile_injective {directory : Text} (hclean : 0 ∉ directory) :
    Function.Injective (caseFile directory) := by
  intro first second hsame
  rw [caseFile_clean hclean, caseFile_clean hclean] at hsame
  have hdecimal := List.append_cancel_left hsame
  rw [← Bytes.decimalValue_decimal first, hdecimal, Bytes.decimalValue_decimal]

theorem fileName_eq {directory : Text} {number : Nat} (hnumber : number < 2147483648) :
    fileName directory (Int32.ofNat number) = caseFile directory number := by
  rw [fileName, caseFile, Int32.toInt_ofNat_of_lt hnumber, Text.integer, if_neg (by omega),
    Int.natAbs_natCast]

end FileChannel

end MoonBoofuzz
