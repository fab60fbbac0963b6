import MoonBoofuzz.Recordio.FileChannel
import MoonBoofuzz.Runner.Combine
import MoonBoofuzz.Runner.SentBytes

namespace MoonBoofuzz

open FileChannel

/-! Runs over the file transport, whatever the disk does. -/

namespace ExecutionConfig

theorem parsePolicies_file {reader : IntReader} {receiveLimit : Int}
    {fields : List (Text × Json)} :
    ∀ {policies : List (Text × ReadPolicy)},
      parsePolicies reader (Text.ofAscii "file") receiveLimit fields = .ok policies →
      ∀ entry ∈ policies, entry.2 = .noResponse := by
  induction fields with
  | nil =>
      intro policies hparse
      cases hparse
      exact List.forall_mem_nil _
  | cons field rest ih =>
      intro policies hparse
      simp only [parsePolicies, exceptBind_eq_ok_iff] at hparse
      obtain ⟨parsed, -, _, -, _, hchecked, others, hothers, hok⟩ := hparse
      cases hok
      refine List.forall_mem_cons.mpr ⟨?_, ih hothers⟩
      unfold checkTransport at hchecked
      split at hchecked
      · split at hchecked
        · split at hchecked
          · rename_i hfile
            exact hfile rfl
          · cases hchecked
        · cases hchecked
      · cases hchecked

theorem parse_file {reader : EndpointReader} {json : Json} {config : ExecutionConfig}
    {directory : Text} (hparse : parse reader json = .ok config)
    (hfile : config.filePath = some directory) :
    ∀ entry ∈ config.policies, entry.2 = .noResponse := by
  simp only [parse, exceptBind_eq_ok_iff] at hparse
  obtain ⟨-, -, kind, -, filePath, hfilePath, server, -, broadcast, -, hparse⟩ := hparse
  split at hparse
  swap
  · obtain ⟨_, hinvalid, -⟩ := exceptBind_eq_ok_iff.mp hparse
    cases hinvalid
  split at hparse
  swap
  · obtain ⟨_, hinvalid, -⟩ := exceptBind_eq_ok_iff.mp hparse
    cases hinvalid
  simp only [exceptBind_eq_ok_iff] at hparse
  obtain ⟨endpoint, -, limit, -, policies, hpolicies, _, -, _, -, _, -, _, -, _, -, _, -, _, -,
    _, -, _, -, _, -, _, -, _, -, _, -, _, -, _, -, _, -, _, -, hok⟩ := hparse
  cases hok
  obtain rfl : kind = Text.ofAscii "file" := by
    by_contra hkind
    rw [parseFilePath, if_neg hkind] at hfilePath
    cases hfilePath
    cases hfile
  unfold policiesConfig at hpolicies
  split at hpolicies
  · exact parsePolicies_file hpolicies
  · cases hpolicies
  · cases hpolicies
    exact List.forall_mem_nil _

end ExecutionConfig

def StepResult.stored (step : StepResult) : Option Bytes :=
  if step.completed then some step.sent else none

/-- The folder after some steps, the first of which wrote file number one. -/
structure Deposited (directory : Text) (files : Bytes → Option Bytes) (steps : List StepResult)
    (folder : Folder) : Prop where
  counter : folder.counter = Int32.ofNat steps.length
  filed : steps.length < 2147483648 →
    Filed (caseFile directory) files (steps.map StepResult.stored) folder.files

section

variable {σ : Type} {system : FileSystem σ} {directory : Text} {files : Bytes → Option Bytes}
  {steps : List StepResult}

theorem Deposited.start {folder : Folder} (hcounter : folder.counter = 0) :
    Deposited directory folder.files [] folder where
  counter := hcounter
  filed := fun _ => Filed.start _ _

theorem send_folder {bytes : Bytes} {disk after : Disk σ} {answer : Except TransportError Unit}
    (hsend : FileChannel.send system directory bytes disk = (answer, after)) :
    after.folder.counter = disk.folder.counter + 1 ∧
      (answer = .ok () →
        after.folder.files (fileName directory (disk.folder.counter + 1)) = some bytes) ∧
      ∀ key, key ≠ fileName directory (disk.folder.counter + 1) →
        after.folder.files key = disk.folder.files key := by
  simp only [FileChannel.send] at hsend
  split at hsend
  · cases hsend
    exact ⟨rfl, fun _ => Function.update_self _ _ _,
      fun key hkey => Function.update_of_ne hkey _ _⟩
  · cases hsend
    exact ⟨rfl, nofun, fun key hkey => Function.update_of_ne hkey _ _⟩
  · cases hsend
    exact ⟨rfl, nofun, fun _ _ => rfl⟩

theorem Deposited.send {disk after : Disk σ} {bytes : Bytes} {step : StepResult}
    {answer : Except TransportError Unit} (hclean : 0 ∉ directory)
    (hstored : Deposited directory files steps disk.folder)
    (hsend : FileChannel.send system directory bytes disk = (answer, after))
    (hstep : step.completed = true → answer = .ok () ∧ step.sent = bytes) :
    Deposited directory files (steps ++ [step]) after.folder := by
  obtain ⟨hcounter, hwritten, hother⟩ := send_folder hsend
  have hnext : disk.folder.counter + 1 = Int32.ofNat (steps.length + 1) := by
    rw [hstored.counter, Int32.ofNat_add]
    rfl
  rw [hnext] at hcounter hwritten hother
  constructor
  · rw [hcounter, List.length_append, List.length_singleton]
  · intro hfew
    rw [List.length_append, List.length_singleton] at hfew
    rw [fileName_eq hfew, ← List.length_map StepResult.stored] at hwritten hother
    rw [List.map_append, List.map_singleton]
    refine (hstored.filed (by omega)).snoc (caseFile_injective hclean) (fun value hvalue => ?_)
      hother
    unfold StepResult.stored at hvalue
    split at hvalue
    · rename_i hcompleted
      obtain ⟨hanswer, hsame⟩ := hstep hcompleted
      cases hvalue
      rw [hsame]
      exact hwritten hanswer
    · cases hvalue

end

namespace Settings

variable {σ : Type}

structure OverFiles (settings : Settings (Disk σ)) (system : FileSystem σ) (directory : Text) :
    Prop where
  dial : settings.dial = FileChannel.dial system directory
  policy : ∀ request, settings.policyOf request = .noResponse
  quiet : settings.receiveDataAfterFuzz = false
  client : settings.udpServer = false

/-- The monitor and the pauses leave the folder alone. -/
structure KeepsFolder (settings : Settings (Disk σ)) : Prop where
  sleep : ∀ milliseconds disk, (settings.clock.sleepMs milliseconds disk).folder = disk.folder
  before : ∀ context disk, (settings.monitor.before context disk).2.folder = disk.folder
  after : ∀ result disk, (settings.monitor.after result disk).2.folder = disk.folder
  fault : ∀ result disk, (settings.monitor.fault result disk).2.folder = disk.folder
  recover : ∀ result disk, (settings.monitor.recover result disk).2.folder = disk.folder
  check : ∀ name bytes disk, (settings.monitor.check name bytes disk).2.folder = disk.folder

end Settings

def SessionPath.KeepsFolder {σ : Type} (path : SessionPath (EdgeCallback (Disk σ))) : Prop :=
  ∀ callback, some callback ∈ path.transitions →
    ∀ context disk, (callback context disk).2.folder = disk.folder

namespace Settings

variable {σ : Type} {settings : Settings (Disk σ)} {system : FileSystem σ} {directory : Text}
  {path : SessionPath (EdgeCallback (Disk σ))} {case : MutationCase} {fuel : Nat}
  {disk after : Disk σ} {files : Bytes → Option Bytes} {earlier : List StepResult}

theorem KeepsFolder.checked (hkeeps : settings.KeepsFolder) {name : Text} {bytes : Bytes}
    {answer : Except CallbackError Bool}
    (hcheck : settings.monitor.check name bytes disk = (answer, after)) :
    after.folder = disk.folder := by
  have hkept := hkeeps.check name bytes disk
  rwa [hcheck] at hkept

theorem OverFiles.receiveStage (hover : settings.OverFiles system directory)
    (channel : Channel (Disk σ)) (request : CompiledRequest) (fuzzNode : Bool) (pending : Bytes) :
    settings.receiveStage channel (settings.policyOf request) fuzzNode pending fuel disk =
      (.done (.complete, [], pending), disk) := by
  rw [Settings.receiveStage, if_pos (hover.policy request), hover.quiet, Bool.and_false]
  rfl

/-- The steps of a case are stored behind those of the earlier ones. -/
theorem stepped_stored (hover : settings.OverFiles system directory)
    (hkeeps : settings.KeepsFolder) (hpath : path.KeepsFolder) (hclean : 0 ∉ directory) :
    StepRule settings (channel system directory) path case fuel
      (fun _ exchange disk => Deposited directory files (earlier ++ exchange.steps) disk.folder)
      (fun result disk => Deposited directory files (earlier ++ result.steps) disk.folder) := by
  intro before request rest transition exchange disk answer last _ htransition hstored hstepped
  have hsend : ∀ {bytes : Bytes} {vars : Vars} {sent : Except TransportError Unit}
      {middle : Disk σ} {fuzzNode : Bool} (step : StepResult),
      Sent (channel system directory) request transition
        (if fuzzNode then some case.parts else none) exchange fuel disk bytes vars sent middle →
      (step.completed = true → sent = .ok () ∧ step.sent = bytes) →
      Deposited directory files (earlier ++ (exchange.steps ++ [step])) middle.folder := by
    intro bytes vars sent middle fuzzNode step hsent hstep
    obtain ⟨ready, hbytes, hanswer⟩ := hsent.bytes
    have hready := stepBytes_keeps Disk.folder
      (fun callback hcallback => hpath callback (htransition callback hcallback)) hbytes
    rw [← hready] at hstored
    rw [← List.append_assoc]
    exact hstored.send hclean hanswer hstep
  refine ⟨fun result hresult => ?_, fun exchange' hexchange => ?_⟩
  · cases hstepped with
    | unsent hsent =>
        cases hresult
        exact hsend _ hsent nofun
    | unread hsent hread houtcome =>
        rw [hover.receiveStage] at hread
        cases hread
        cases houtcome
    | refused hsent hread houtcome hcheck hanswer =>
        cases hresult
        rw [hover.receiveStage] at hread
        cases hread
        rw [hkeeps.checked hcheck]
        exact hsend _ hsent nofun
    | accepted hsent hread houtcome hcheck => cases hresult
  · cases hstepped with
    | accepted hsent hread houtcome hcheck =>
        cases hexchange
        rw [hover.receiveStage] at hread
        cases hread
        rw [hkeeps.checked hcheck]
        exact hsend _ hsent fun _ => ⟨rfl, rfl⟩
    | _ => cases hexchange

theorem dial_folder {answer : Except TransportError (Channel (Disk σ))}
    (hdial : FileChannel.dial system directory disk = (answer, after)) :
    after.folder.files = disk.folder.files ∧ after.folder.counter = disk.folder.counter ∧
      (answer = .ok (channel system directory) ∨ answer = .error (.sendFailure (-1))) := by
  unfold FileChannel.dial at hdial
  generalize system.makeDirectory (cString directory) disk.rest = made at hdial
  obtain ⟨code, rest⟩ := made
  dsimp only at hdial
  split at hdial
  · cases hdial
    exact ⟨rfl, rfl, Or.inl rfl⟩
  · cases hdial
    exact ⟨rfl, rfl, Or.inr rfl⟩

theorem execute_stored {result : CaseResult} (hover : settings.OverFiles system directory)
    (hkeeps : settings.KeepsFolder) (hpath : path.KeepsFolder) (hclean : 0 ∉ directory)
    (hstored : Deposited directory files earlier disk.folder)
    (hexecute : settings.execute path case fuel disk = (.done result, after)) :
    Deposited directory files (earlier ++ result.steps) after.folder ∧
      isDialFailure result = false := by
  have hready : ∀ {answer : Except CallbackError Unit} {ready : Disk σ},
      settings.monitor.before ⟨path.caseId case, case, path.names⟩ disk = (answer, ready) →
      Deposited directory files earlier ready.folder := by
    intro answer ready hbefore
    have hkept := hkeeps.before ⟨path.caseId case, case, path.names⟩ disk
    rw [hbefore] at hkept
    rwa [show ready.folder = disk.folder from hkept]
  cases execute_cases hexecute with
  | barred hbefore =>
      refine ⟨?_, rfl⟩
      rw [report, List.append_nil]
      exact hready hbefore
  | @undialed error ready last hbefore hdial =>
      rw [hover.dial] at hdial
      obtain ⟨hfiles, hcounter, hanswer⟩ := dial_folder hdial
      obtain rfl : error = .sendFailure (-1) := by
        rcases hanswer with hok | herror
        · cases hok
        · cases herror
          rfl
      refine ⟨?_, rfl⟩
      rw [report, List.append_nil]
      have hearlier := hready hbefore
      exact ⟨hcounter ▸ hearlier.counter, hfiles ▸ hearlier.filed⟩
  | unheard hbefore hdial hserver hheard => cases hover.client.symm.trans hserver
  | @ran opened result ready dialed started last hbefore hdial hserver hrun =>
      rw [hover.dial] at hdial
      obtain ⟨hfiles, hcounter, hanswer⟩ := dial_folder hdial
      obtain rfl : opened = channel system directory := by
        rcases hanswer with hok | herror
        · cases hok
          rfl
        · cases herror
      rw [hover.client] at hserver
      obtain rfl : started = dialed := hserver
      have hearlier := hready hbefore
      have hstart : Deposited directory files (earlier ++ (Exchange.start settings.vars).steps)
          started.folder := by
        rw [Exchange.start, List.append_nil]
        exact ⟨hcounter ▸ hearlier.counter, hfiles ▸ hearlier.filed⟩
      refine ⟨executeSteps_rule _ _ (stepped_stored hover hkeeps hpath hclean)
        (fun exchange disk hend => hend) hstart hrun, ?_⟩
      have hfailed := executeSteps_rule (fun _ _ _ => True)
        (fun result _ => result.failedStep ≠ some (-1)) stepped_dialed
        (fun _ _ _ => by simp [report]) trivial hrun
      simp [isDialFailure, hfailed]

theorem finish_steps (result : CaseResult) :
    Act.Always (fun answer => answer.1.steps = result.steps) (settings.finish result) := by
  have hsurvives : Survives fun other => other.steps = result.steps :=
    fun _ _ hsteps _ => hsteps
  exact finish_keeps hsurvives rfl

theorem finish_folder (hkeeps : settings.KeepsFolder) (result : CaseResult) :
    Act.Unchanged Disk.folder (settings.finish result) := by
  unfold finish
  refine Act.unchanged_bind (Act.unchanged_perform (hkeeps.after result)) fun answer => ?_
  dsimp only
  split
  · refine Act.unchanged_bind (Act.unchanged_perform (hkeeps.fault _)) fun _ => ?_
    refine Act.unchanged_bind (Act.unchanged_perform (hkeeps.recover _)) fun recovered => ?_
    split
    · exact Act.unchanged_pure _
    · exact Act.unchanged_pure _
    · exact Act.unchanged_pure _
  · exact Act.unchanged_pure _

theorem attempt_stored {result : CaseResult} {stop : Bool}
    (hover : settings.OverFiles system directory) (hkeeps : settings.KeepsFolder)
    (hpath : path.KeepsFolder) (hclean : 0 ∉ directory)
    (hstored : Deposited directory files earlier disk.folder)
    (hattempt : settings.attempt path case fuel disk = (.done (result, stop), after)) :
    Deposited directory files (earlier ++ result.steps) after.folder := by
  rw [attempt, execute_dialed fun raw last hexecute =>
    (execute_stored hover hkeeps hpath hclean hstored hexecute).2] at hattempt
  obtain ⟨raw, middle, hexecute, hfinish⟩ := Act.bind_eq_done.mp hattempt
  have hraw := (execute_stored hover hkeeps hpath hclean hstored hexecute).1
  have hfolder := finish_folder hkeeps raw middle
  have hsteps := finish_steps raw middle _ _ hfinish
  rw [hfinish] at hfolder
  dsimp only at hfolder hsteps
  rwa [hfolder, hsteps]

theorem pause_folder (hkeeps : settings.KeepsFolder) (milliseconds : Int) (disk : Disk σ) :
    (settings.pause milliseconds disk).folder = disk.folder := by
  unfold pause
  split
  · exact hkeeps.sleep milliseconds disk
  · rfl

end Settings

namespace Runner

variable {σ : Type} {paths : List (SessionPath (EdgeCallback (Disk σ)))}
  {settings : Settings (Disk σ)} {system : FileSystem σ} {directory : Text}
  {runner last : Runner (Disk σ)} {disk after : Disk σ} {files : Bytes → Option Bytes}

/-- A call that gives a result attempts its case, and then at most pauses. -/
theorem next_attempts {ω : Type} {runner last : Runner ω} {world after : ω} {fuel : Nat}
    {result : CaseResult}
    (hnext : runner.next fuel world = (.done (some result), last, after)) :
    ∃ found middle stop between, runner.seekCase fuel fuel = (.done (some found), middle) ∧
      middle.settings.attempt (middle.paths.getD middle.index ⟨[], []⟩) found fuel world =
        (.done (result, stop), between) ∧
      (after = between ∨
        after = last.settings.pause last.settings.sleepBetweenMs between) := by
  unfold next at hnext
  split at hnext
  · split at hnext
    · cases hnext
    · cases hnext
    · cases hnext
    · rename_i found middle hseek
      dsimp only at hnext
      split at hnext
      · cases hnext
      · cases hnext
      · rename_i hattempt
        cases hnext
        exact ⟨found, middle, true, _, hseek, hattempt, Or.inl rfl⟩
      · rename_i hattempt
        split at hnext
        · cases hnext
        · cases hnext
        · cases hnext
          exact ⟨found, middle, false, _, hseek, hattempt, Or.inr rfl⟩
  · cases hnext

theorem Furnished.stores {fuel : Nat} {result : CaseResult} {earlier : List StepResult}
    (hfurnished : Furnished paths settings runner) (hover : settings.OverFiles system directory)
    (hkeeps : settings.KeepsFolder) (hpaths : ∀ path ∈ paths, path.KeepsFolder)
    (hclean : 0 ∉ directory) (hstored : Deposited directory files earlier disk.folder)
    (hnext : runner.next fuel disk = (.done (some result), last, after)) :
    Deposited directory files (earlier ++ result.steps) after.folder := by
  obtain ⟨found, middle, stop, between, hseek, hattempt, hafter⟩ := next_attempts hnext
  have hmiddle := hfurnished.seekCase hseek
  rw [hmiddle.settings_eq, hmiddle.paths_eq] at hattempt
  have hpath : (paths.getD middle.index ⟨[], []⟩).KeepsFolder := by
    rw [List.getD_eq_getElem?_getD]
    cases hfound : paths[middle.index]? with
    | none => exact fun callback hcallback => by cases hcallback
    | some path => exact hpaths path (List.mem_of_getElem? hfound)
  have hbetween := Settings.attempt_stored hover hkeeps hpath hclean hstored hattempt
  rcases hafter with rfl | rfl
  · exact hbetween
  · rwa [(hfurnished.next hnext).settings_eq, Settings.pause_folder hkeeps]

theorem Furnished.stores_runs {holds : Runner (Disk σ) → Prop} {results : List CaseResult}
    (hover : settings.OverFiles system directory) (hkeeps : settings.KeepsFolder)
    (hpaths : ∀ path ∈ paths, path.KeepsFolder) (hclean : 0 ∉ directory)
    (hruns : Runs holds runner disk results last after) :
    ∀ {earlier : List StepResult}, Furnished paths settings runner →
      Deposited directory files earlier disk.folder →
      Deposited directory files (earlier ++ results.flatMap (·.steps)) after.folder := by
  induction hruns with
  | nil runner disk =>
      intro earlier _ hstored
      rwa [List.flatMap_nil, List.append_nil]
  | cons hcall _ _ ih =>
      intro earlier hfurnished hstored
      have hnext := hfurnished.stores hover hkeeps hpaths hclean hstored hcall
      rw [List.flatMap_cons, ← List.append_assoc]
      exact ih (hfurnished.next hcall) hnext

end Runner

namespace FileOptions

variable {σ : Type} {options : FileOptions (Disk σ)} {system : FileSystem σ}
  {clock : Clock (Disk σ)} {debug : DebugText} {config : ExecutionConfig} {directory : Text}
  {paths : List (SessionPath (EdgeCallback (Disk σ)))}

theorem settings_overFiles (hpolicies : ∀ entry ∈ config.policies, entry.2 = .noResponse) :
    (options.settings system clock debug config directory).OverFiles system directory where
  dial := rfl
  policy := by
    intro request
    change (config.policies.lookup request.name).getD .noResponse = .noResponse
    cases hlookup : config.policies.lookup request.name with
    | none => rfl
    | some policy =>
        obtain ⟨before, later, hsplit, -⟩ := List.lookup_eq_some_iff.mp hlookup
        apply hpolicies (request.name, policy)
        rw [hsplit]
        exact List.mem_append_right _ List.mem_cons_self
  quiet := rfl
  client := rfl

/-- A run over the file transport, whatever the disk, the monitor and the callbacks answer: its
steps, counted over all results, have each written a file with its number; where a step is
completed this holds what the step has sent to the end, and no other file is touched. -/
theorem files_hold_steps {reader : EndpointReader} {json : Json}
    {runner last : Runner (Disk σ)} {disk after : Disk σ} {results : List CaseResult}
    (hparse : ExecutionConfig.parse reader json = .ok config)
    (hpath : config.filePath = some directory) (hclean : 0 ∉ directory)
    (hnew : options.fileRunner system clock debug config paths = some (.ok runner))
    (hkeeps : (options.settings system clock debug config directory).KeepsFolder)
    (hpaths : ∀ path ∈ paths, path.KeepsFolder) (hfresh : disk.folder.counter = 0)
    (hruns : Runner.Runs (fun _ => True) runner disk results last after)
    (hfew : (results.flatMap (·.steps)).length < 2147483648) :
    after.folder.counter.toInt = (results.flatMap (·.steps)).length ∧
      (∀ number step, (results.flatMap (·.steps))[number]? = some step →
        step.completed = true →
          after.folder.files (caseFile directory (number + 1)) = some step.sent) ∧
      ∀ name, (∀ number < (results.flatMap (·.steps)).length,
          name ≠ caseFile directory (number + 1)) →
        after.folder.files name = disk.folder.files name := by
  rw [fileRunner, hpath, Option.map_some, Option.some.injEq] at hnew
  have hover : (options.settings system clock debug config directory).OverFiles system
      directory :=
    settings_overFiles (ExecutionConfig.parse_file hparse hpath)
  have hstored := Runner.Furnished.stores_runs hover hkeeps hpaths hclean hruns
    (Runner.withDialer_furnished hnew) (Deposited.start hfresh)
  rw [List.nil_append] at hstored
  have hfiled := hstored.filed hfew
  refine ⟨?_, fun number step hstep hcompleted => ?_, fun name hname => ?_⟩
  · rw [hstored.counter, Int32.toInt_ofNat_of_lt hfew]
  · apply hfiled.held
    rw [List.getElem?_map, hstep, Option.map_some, StepResult.stored, if_pos hcompleted]
  · apply hfiled.other
    rwa [List.length_map]

/-- After a run all of whose cases pass, the files are byte for byte, and in their order, the
messages that `generate` emits for the cases that have been executed. -/
theorem files_hold_generated {reader : EndpointReader} {json : Json}
    {definition : ProtocolDefinition (EdgeCallback (Disk σ))}
    {runner last : Runner (Disk σ)} {disk after : Disk σ} {results : List CaseResult}
    (hparse : ExecutionConfig.parse reader json = .ok config)
    (hpath : config.filePath = some directory) (hclean : 0 ∉ directory)
    (hparsed : ProtocolDefinition.Parsed definition)
    (hstatic : ∀ request ∈ definition.requests, request.Static)
    (hsingle : (options.settings system clock debug config directory).mode = .sequential →
      ∀ request ∈ definition.requests, request.SinglyGrouped)
    (hbare : ∀ path ∈ definition.paths, ∀ callback, some callback ∉ path.transitions)
    (hnew : options.fileRunner system clock debug config definition.paths = some (.ok runner))
    (hkeeps : (options.settings system clock debug config directory).KeepsFolder)
    (htotal : ProtocolDefinition.total (Runner.candidatesOf
      (options.settings system clock debug config directory).mode definition.paths) < 2147483647)
    (hstart : 0 ≤ options.start.toInt) (hfresh : disk.folder.counter = 0)
    (hruns : Runner.Runs (fun _ => True) runner disk results last after)
    (hfew : (results.flatMap (·.steps)).length < 2147483648)
    (hpassed : ∀ result ∈ results, result.outcome = .passed) :
    ∃ cases, definition.Generates
        (options.settings system clock debug config directory).mode options.start cases ∧
      ∀ number bytes, (((Runner.dueCases (options.settings system clock debug config directory)
          cases).take results.length).flatMap GeneratedCase.messages)[number]? = some bytes →
        after.folder.files (caseFile directory (number + 1)) = some bytes := by
  rw [fileRunner, hpath, Option.map_some, Option.some.injEq] at hnew
  have hover : (options.settings system clock debug config directory).OverFiles system
      directory :=
    settings_overFiles (ExecutionConfig.parse_file hparse hpath)
  have hfurnished := Runner.withDialer_furnished hnew
  have hstored := Runner.Furnished.stores_runs hover hkeeps
    (fun path hmem callback hcallback => absurd hcallback (hbare path hmem callback)) hclean hruns
    hfurnished (Deposited.start hfresh)
  rw [List.nil_append] at hstored
  have hfiled := hstored.filed hfew
  obtain ⟨cases, hgenerates, hsends, -⟩ :=
    Runner.runs_send hparsed hstatic hsingle hbare hnew htotal hstart hruns hpassed
  refine ⟨cases, hgenerates, fun number bytes hbytes => ?_⟩
  rw [← Runner.Sends.messages hsends, ← List.map_flatMap, List.getElem?_map,
    Option.map_eq_some_iff] at hbytes
  obtain ⟨step, hstep, rfl⟩ := hbytes
  have hcompleted : step.completed = true := by
    obtain ⟨result, hmem, hshared⟩ := List.mem_flatMap.mp (List.mem_of_getElem? hstep)
    obtain ⟨index, fuel, world, stop, between, hattempt⟩ :=
      hruns.attempts hfurnished result hmem
    have hsound := Settings.attempt_sound _ _ _ hattempt
    exact (hsound.passed (hpassed result hmem)).2.2 step hshared
  apply hfiled.held
  rw [List.getElem?_map, hstep, Option.map_some, StepResult.stored, if_pos hcompleted]

/-! Runs on a sample disk. -/

def fileConfig : Json :=
  .object [(Text.ofAscii "transport", .string (Text.ofAscii "file")),
    (Text.ofAscii "path", .string (Text.ofAscii "out"))]

/-- A disk that is full at the message with a number, counted from zero: the file keeps only
one byte. -/
def fullSystem (full : Nat) : FileSystem Nat where
  makeDirectory _ count := (0, count)
  write _ _ count := (if count = full then .short 1 28 else .whole, count + 1)

def stillClock : Clock (Disk Nat) where
  monotonicMs disk := (0, disk)
  sleepMs _ disk := disk

def fileDebug : DebugText := ⟨fun _ => [], fun _ => []⟩

def allCases : FileOptions (Disk Nat) := ⟨Monitor.new, 5, false, none, 0, none, none⟩

def messagePath : SessionPath (EdgeCallback (Disk Nat)) := ⟨[CompiledRequest.pairedRequest], []⟩

def emptyDisk : Disk Nat := ⟨⟨fun _ => none, 0, 0⟩, 0⟩

def fileRun (full : Nat) : Option (List CaseResult × Runner (Disk Nat) × Disk Nat) := do
  let config ← (ExecutionConfig.parse EndpointReader.plain fileConfig).toOption
  let created ← allCases.fileRunner (fullSystem full) stillClock fileDebug config [messagePath]
  let runner ← created.toOption
  Runner.callAll 20 5 runner emptyDisk

theorem ok_of_toOption {ε α : Type} {answer : Except ε α} {value : α}
    (hvalue : answer.toOption = some value) : answer = .ok value := by
  cases answer with
  | error error => cases hvalue
  | ok other =>
      cases hvalue
      rfl

theorem fileRun_runs {full : Nat} {results : List CaseResult} {last : Runner (Disk Nat)}
    {after : Disk Nat} (hrun : fileRun full = some (results, last, after)) :
    ∃ config runner, ExecutionConfig.parse EndpointReader.plain fileConfig = .ok config ∧
      config.filePath = some (Text.ofAscii "out") ∧
      allCases.fileRunner (fullSystem full) stillClock fileDebug config [messagePath] =
        some (.ok runner) ∧
      (allCases.settings (fullSystem full) stillClock fileDebug config
        (Text.ofAscii "out")).KeepsFolder ∧
      Runner.Runs (fun _ => True) runner emptyDisk results last after := by
  simp only [fileRun, Option.bind_eq_bind, Option.bind_eq_some_iff] at hrun
  obtain ⟨config, hconfig, created, hcreated, runner, hrunner, hcalls⟩ := hrun
  obtain ⟨hruns, -⟩ := Runner.callAll_runs hcalls
  have hpath : config.filePath = some (Text.ofAscii "out") := by
    have hparsed : (ExecutionConfig.parse EndpointReader.plain fileConfig).toOption.bind
        (·.filePath) = some (Text.ofAscii "out") := by decide +kernel
    rwa [hconfig] at hparsed
  refine ⟨config, runner, ok_of_toOption hconfig, hpath, ?_, ?_, hruns⟩
  · rw [hcreated, ok_of_toOption hrunner]
  · constructor <;> intros <;> rfl

/-- The first and the third message of the run are on the disk, each in its own file. -/
theorem files_hold_steps_full : ∃ results last after,
    fileRun 1 = some (results, last, after) ∧
      results.map (·.outcome) = [.passed, .sendFailed 28, .passed] ∧
      after.folder.counter.toInt = 3 ∧
      after.folder.files (caseFile (Text.ofAscii "out") 1) = some [0x32, 0x34] ∧
      after.folder.files (caseFile (Text.ofAscii "out") 3) = some [0x31, 0x35] := by
  have hsteps : ((fileRun 1).map fun called => (called.1.map (·.outcome),
      called.1.flatMap (·.steps))) = some ([.passed, .sendFailed 28, .passed],
        [⟨Text.ofAscii "r", [0x32, 0x34], [], true⟩, ⟨Text.ofAscii "r", [], [], false⟩,
          ⟨Text.ofAscii "r", [0x31, 0x35], [], true⟩]) := by decide +kernel
  obtain ⟨⟨results, last, after⟩, hrun, hsame⟩ := Option.map_eq_some_iff.mp hsteps
  simp only [Prod.mk.injEq] at hsame
  obtain ⟨houtcomes, hall⟩ := hsame
  obtain ⟨config, runner, hparse, hpath, hnew, hkeeps, hruns⟩ := fileRun_runs hrun
  obtain ⟨hcounter, hheld, -⟩ := files_hold_steps hparse hpath (by decide) hnew hkeeps
    (List.forall_mem_singleton.mpr fun callback hcallback => by cases hcallback) rfl hruns
    (by rw [hall]; decide)
  rw [hall] at hcounter hheld
  exact ⟨results, last, after, hrun, houtcomes, hcounter, hheld 0 _ rfl rfl, hheld 2 _ rfl rfl⟩

/-- On a disk with room for all of them, the files are the messages of the first cases. -/
theorem files_hold_generated_whole : ∃ results last after cases,
    fileRun 9 = some (results, last, after) ∧
      ProtocolDefinition.Generates ⟨[CompiledRequest.pairedRequest], [messagePath]⟩ .sequential 0
        cases ∧
      ∀ number bytes, ((cases.take 3).flatMap GeneratedCase.messages)[number]? = some bytes →
        after.folder.files (caseFile (Text.ofAscii "out") (number + 1)) = some bytes := by
  have houtcomes : ((fileRun 9).map fun called => (called.1.map (·.outcome),
      (called.1.flatMap (·.steps)).length)) = some ([.passed, .passed, .passed], 3) := by
    decide +kernel
  obtain ⟨⟨results, last, after⟩, hrun, hsame⟩ := Option.map_eq_some_iff.mp houtcomes
  simp only [Prod.mk.injEq] at hsame
  obtain ⟨hall, hcount⟩ := hsame
  obtain ⟨config, runner, hparse, hpath, hnew, hkeeps, hruns⟩ := fileRun_runs hrun
  have hbare : ∀ path ∈ [messagePath], ∀ callback, some callback ∉ path.transitions :=
    List.forall_mem_singleton.mpr fun callback hcallback => by cases hcallback
  have hpassed : ∀ result ∈ results, result.outcome = .passed := by
    intro result hmem
    have houtcome := List.mem_map_of_mem hmem (f := (·.outcome))
    rw [hall] at houtcome
    simpa using houtcome
  have hthree : results.length = 3 := by
    rw [← List.length_map (·.outcome), hall]
    rfl
  obtain ⟨cases, hgenerates, hheld⟩ := files_hold_generated hparse hpath (by decide)
    (Runner.pairedRequest_parsed rfl) Runner.pairedRequest_static
    (fun _ => CaseStream.pairedRequest_singlyGrouped) hbare hnew hkeeps Runner.pairedRequest_length
    (by decide) rfl hruns (by rw [hcount]; decide) hpassed
  refine ⟨results, last, after, cases, hrun, hgenerates, fun number bytes hbytes => ?_⟩
  apply hheld number bytes
  rw [hthree, Runner.dueCases, List.take_take]
  have hfiltered : (cases.filter fun item => Runner.beforeEnd none item.case.ordinal) = cases :=
    List.filter_eq_self.mpr fun _ _ => rfl
  change (((cases.filter fun item => Runner.beforeEnd none item.case.ordinal).take 3).flatMap
    GeneratedCase.messages)[number]? = some bytes
  rwa [hfiltered]

end FileOptions

end MoonBoofuzz
