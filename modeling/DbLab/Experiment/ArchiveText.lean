import DbLab.Experiment.ArchiveAgreement
import DbLab.Experiment.Generation

/-!
# The text of an archive

The indented text of a JSON value, an archive that is verified, and one whose trace is longer than the verifier reads.
-/

namespace DbLab.Experiment.BatchArchive

open Analyze (Value)

/-! ### The indented text -/

def newline (indent : ℕ) : List Char := '\n' :: List.replicate (2 * indent) ' '

/-- A character of a string. -/
def escaped (c : Char) : List Char :=
  if c = '"' then ['\\', '"']
  else if c = '\\' then ['\\', '\\']
  else if c = '\n' then ['\\', 'n']
  else if c = '\r' then ['\\', 'r']
  else if c = '\t' then ['\\', 't']
  else if c.toNat = 8 then ['\\', 'b']
  else if c.toNat = 12 then ['\\', 'f']
  else if c.toNat < 32 then ['\\', 'u', '0', '0', Nat.digitChar (c.toNat / 16), Nat.digitChar (c.toNat % 16)]
  else [c]

def quoted (s : String) : List Char := '"' :: s.toList.flatMap escaped ++ ['"']

/-- An array or an object around what it holds. -/
def enclosed (opening closing : Char) (indent : ℕ) (body : List Char) : List Char :=
  if body = [] then [opening, closing] else opening :: body ++ newline indent ++ [closing]

mutual

/-- The text of `to_writer_pretty` at an indentation. -/
def pretty : Value → ℕ → List Char
  | .null, _ => ['n', 'u', 'l', 'l']
  | .bool true, _ => ['t', 'r', 'u', 'e']
  | .bool false, _ => ['f', 'a', 'l', 's', 'e']
  | .unsigned n, _ => Nat.toDigits 10 n
  | .otherNumber literal, _ => literal.toList
  | .string s, _ => quoted s
  | .array items, indent => enclosed '[' ']' indent (prettyItems items [] (indent + 1))
  | .object members, indent => enclosed '{' '}' indent (prettyMembers members [] (indent + 1))

def prettyItems : List Value → List Char → ℕ → List Char
  | [], _, _ => []
  | item :: items, separator, indent =>
    separator ++ newline indent ++ pretty item indent ++ prettyItems items [','] indent

def prettyMembers : List (String × Value) → List Char → ℕ → List Char
  | [], _, _ => []
  | (name, value) :: members, separator, indent =>
    separator ++ newline indent ++ quoted name ++ [':', ' '] ++ pretty value indent ++ prettyMembers members [','] indent

end

/-- The bytes of a character. -/
def charBytes (c : Char) : Bytes := (String.utf8EncodeChar c).map fun b => ⟨b.toNat, b.toNat_lt⟩

def jsonText (value : Value) : Bytes := (pretty value 0).flatMap charBytes

/-- The texts of some values, which are read back, and a trace. -/
def textSerde (values : List Value) (trace : ExperimentTrace) : Serde where
  toWriterPretty := jsonText
  fromSlice bytes :=
    match values.find? fun value => jsonText value ++ [10] = bytes with
    | some value => .ok value
    | none => .error "expected value"
  traceFromValue value := if value = trace.json then .ok trace else .error "invalid type"
  display value := String.ofList (pretty value 0)

/-! ### Lengths -/

theorem length_le_flatMap {α β : Type} {f : α → List β} (hf : ∀ a, 1 ≤ (f a).length) (l : List α) :
    l.length ≤ (l.flatMap f).length := by
  induction l with
  | nil => simp
  | cons a l ih =>
    have ha := hf a
    rw [List.flatMap_cons, List.length_append, List.length_cons]
    omega

theorem one_le_escaped (c : Char) : 1 ≤ (escaped c).length := by
  unfold escaped
  split_ifs <;> simp

theorem one_le_charBytes (c : Char) : 1 ≤ (charBytes c).length := by
  rw [charBytes, List.length_map, String.length_utf8EncodeChar]
  exact Char.utf8Size_pos c

theorem length_quoted_le (s : String) : s.toList.length + 2 ≤ (quoted s).length := by
  have h := length_le_flatMap one_le_escaped s.toList
  simp only [quoted, List.length_append, List.length_cons, List.length_nil]
  omega

theorem length_newline (indent : ℕ) : (newline indent).length = 2 * indent + 1 := by simp [newline]

theorem length_le_enclosed (opening closing : Char) (indent : ℕ) (body : List Char) :
    body.length + 2 ≤ (enclosed opening closing indent body).length := by
  unfold enclosed
  split_ifs with h
  · simp [h]
  · simp only [List.length_append, List.length_cons, List.length_nil]
    omega

theorem length_le_prettyMembers {members : List (String × Value)} {name : String} {value : Value}
    (h : (name, value) ∈ members) (separator : List Char) (indent : ℕ) :
    (pretty value indent).length ≤ (prettyMembers members separator indent).length := by
  induction members generalizing separator with
  | nil => exact absurd h (by simp)
  | cons member members ih =>
    obtain ⟨name', value'⟩ := member
    rw [prettyMembers]
    simp only [List.length_append]
    rcases List.mem_cons.1 h with heq | hmem
    · cases heq
      omega
    · have hrest := ih hmem [',']
      omega

theorem length_le_prettyItems {items : List Value} {indent bound : ℕ}
    (h : ∀ item ∈ items, bound ≤ (pretty item indent).length) (separator : List Char) :
    (bound + (2 * indent + 1)) * items.length ≤ (prettyItems items separator indent).length := by
  induction items generalizing separator with
  | nil => simp
  | cons item items ih =>
    have hitem := h item (by simp)
    have hrest := ih (fun other hother => h other (by simp [hother])) [',']
    rw [prettyItems]
    simp only [List.length_append, List.length_cons, length_newline]
    rw [Nat.mul_add]
    omega

theorem length_toHex (bytes : Bytes) : (toHex bytes).toList.length = 2 * bytes.length := by
  rw [toHex, String.toList_ofList]
  induction bytes with
  | nil => rfl
  | cons b bytes ih =>
    rw [List.flatMap_cons, List.length_append, ih, List.length_cons]
    simp only [List.length_cons, List.length_nil]
    omega

/-- The text of a put in a list of steps. -/
theorem length_put_le {key value : Bytes} (hkey : key.length = 8) :
    72 ≤ (pretty (ExperimentStep.put key value).json 2).length := by
  have hop := length_quoted_le "op"
  have hput := length_quoted_le "put"
  have hname := length_quoted_le "key"
  have hname' := length_quoted_le "value"
  have hhex := length_quoted_le (toHex key)
  have hhex' := length_quoted_le (toHex value)
  rw [length_toHex] at hhex hhex'
  have hlengths : "op".toList.length = 2 ∧ "put".toList.length = 3 ∧ "key".toList.length = 3 ∧
      "value".toList.length = 5 := by decide
  have henclosed := length_le_enclosed '{' '}' 2 (prettyMembers
    [("op", .string "put"), ("key", Json.byteString key), ("value", Json.byteString value)] [] 3)
  rw [ExperimentStep.json, pretty]
  refine le_trans ?_ henclosed
  simp only [prettyMembers, pretty, Json.byteString, List.length_append, List.length_cons, List.length_nil,
    length_newline]
  omega

/-! ### A trace of a million writes -/

def millionWrites : ExperimentGeneratorConfig := ⟨0, .sequentialWrite, 1000000, 1000000, 0, 1, none⟩

theorem measuredOf_sequentialWrite {config : ExperimentGeneratorConfig} (hprofile : config.profile = .sequentialWrite)
    (hreopen : config.reopenEvery = none) (ids : List ℕ) (random : SplitMix64) :
    (measuredOf config ids random).length = ids.length ∧
      ∀ step ∈ measuredOf config ids random, ∃ key value, step = .put key value ∧ key.length = 8 := by
  induction ids generalizing random with
  | nil => exact ⟨rfl, by simp [measuredOf]⟩
  | cons id ids ih =>
    have hnone : reopensAt config id = [] := by simp [reopensAt, hreopen]
    obtain ⟨hlength, hsteps⟩ := ih (measuredStep config id random).2
    rw [measuredOf_cons, hnone, List.nil_append]
    refine ⟨by rw [List.length_cons, hlength, List.length_cons], ?_⟩
    intro step hstep
    rcases List.mem_cons.1 hstep with rfl | hrest
    · refine ⟨experimentKey id, (randomValue random config.valueBytes).1, ?_, ?_⟩
      · simp [measuredStep, hprofile]
      · simp [experimentKey, leBytes_length]
    · exact hsteps step hrest

theorem millionWrites_valid : millionWrites.validate = .ok () := by
  have hok : millionWrites.validate.toBool = true := by decide +kernel
  cases h : millionWrites.validate with
  | ok _ => rfl
  | error e =>
    rw [h] at hok
    cases hok

/-- The text of a trace of writes has 77 bytes at least for each of them. -/
theorem sequentialWrite_long {config : ExperimentGeneratorConfig} (hprofile : config.profile = .sequentialWrite)
    (hreopen : config.reopenEvery = none) :
    77 * config.operations.val ≤ (jsonText (generatedTrace config).json).length := by
  obtain ⟨hcount, hsteps⟩ := measuredOf_sequentialWrite hprofile hreopen (List.range config.operations.val)
    (setupOf config ⟨config.seed⟩).2
  have hmeasured : (generatedTrace config).measuredSteps.length = config.operations.val := by
    rw [List.length_range] at hcount
    exact hcount
  have hlong : ∀ item ∈ (generatedTrace config).measuredSteps.map ExperimentStep.json, 72 ≤ (pretty item 2).length := by
    intro item hitem
    obtain ⟨step, hstep, rfl⟩ := List.mem_map.1 hitem
    obtain ⟨key, value, rfl, hkey⟩ := hsteps step hstep
    exact length_put_le hkey
  obtain ⟨members, hjson, hmember⟩ : ∃ members, (generatedTrace config).json = .object members ∧
      ("measured_steps", Value.array ((generatedTrace config).measuredSteps.map ExperimentStep.json)) ∈ members :=
    ⟨_, rfl, by simp⟩
  have hitems := length_le_prettyItems hlong []
  rw [List.length_map, hmeasured] at hitems
  have harray : (prettyItems ((generatedTrace config).measuredSteps.map ExperimentStep.json) [] 2).length + 2 ≤
      (pretty (.array ((generatedTrace config).measuredSteps.map ExperimentStep.json)) 1).length := by
    rw [pretty]
    exact length_le_enclosed '[' ']' 1 _
  have hmembers := length_le_prettyMembers hmember [] 1
  have hobject : (prettyMembers members [] 1).length + 2 ≤ (pretty (.object members) 0).length := by
    rw [pretty]
    exact length_le_enclosed '{' '}' 0 _
  have hbytes := length_le_flatMap one_le_charBytes (pretty (.object members) 0)
  rw [jsonText, hjson]
  omega

/-- The trace is longer than the verifier reads. -/
theorem millionWrites_long : maxArchiveJsonBytes < (jsonText (generatedTrace millionWrites).json).length := by
  refine lt_of_lt_of_le ?_ (@sequentialWrite_long millionWrites rfl rfl)
  decide +kernel

/-! ### Runs -/

section Runs

variable {σ ρ : Type} [Candidate σ] [Candidate ρ] (makeLeft : ExperimentInstanceContext → Except DbError σ)
  (makeRight : ExperimentInstanceContext → Except DbError ρ) (surroundings : Surroundings) (args : Cli)
  (trace : ExperimentTrace)

/-- A run whose arguments are accepted comes to its archive, whatever becomes of its pairs. -/
theorem exists_prepared {exclusions : SortedMap ℕ String} {admission : Option BatchPublicationAdmissionRecord}
    {seconds : ℕ} (hrevision : validateRevision args.revision = .ok ())
    (hpairs : args.pairs.val ≠ 0 ∧ args.pairs.val ≤ maxExperimentBatchPairs) (hvalid : trace.validate = .ok ())
    (hexclusions : parseExclusions args.excludePairs args.pairs = .ok exclusions)
    (hadmission : validatePublicationAdmission args exclusions surroundings.buildProfile surroundings.rustcHostTriple =
      .ok admission) (hseconds : surroundings.unixSeconds = some seconds) :
    ∃ prepared, prepare makeLeft makeRight surroundings args trace = .ok prepared := by
  have hreasoned : ∀ context, (callbacksOf makeLeft makeRight exclusions).Reasoned context :=
    callbacksOf_reasoned (parseExclusions_reasoned hexclusions)
  have hcaptured := @runCounterbalancedExperimentBatchCaptured_eq _ _ _ _ (callbacksOf makeLeft makeRight exclusions)
    trace args.pairSeed args.pairs.val hvalid ⟨by omega, hpairs.2⟩ fun i _ => hreasoned _
  unfold prepare buildEnvironment
  rw [hrevision, Checked.ok_bind, requireUsage_eq_ok.2 hpairs, Checked.ok_bind, Checked.mapError_eq_ok.2 hvalid, Checked.ok_bind,
    hexclusions, Checked.ok_bind, hadmission, Checked.ok_bind, Checked.mapError_eq_ok.2 hcaptured, Checked.ok_bind, hseconds]
  exact ⟨_, rfl⟩

variable {makeLeft makeRight surroundings args trace} in
theorem run_of_prepare (serde : Serde) {prepared : Prepared}
    (h : prepare makeLeft makeRight surroundings args trace = .ok prepared) :
    ∃ result, run makeLeft makeRight surroundings args trace serde =
      (result, some (writeBatchArchive serde (prepared.values args trace))) := by
  rw [run, h]
  exact ⟨_, rfl⟩

end Runs

def plainSurroundings : Surroundings where
  dbLabVersion := "0.1.0"
  targetOs := "linux"
  targetArch := "x86_64"
  buildProfile := "release"
  rustcVersion := none
  rustcHostTriple := none
  unixSeconds := some 0

def plainArgs (pairs : U32) (excludePairs : List String) : Cli where
  pairSeed := 0
  pairs := pairs
  btreeCachePages := 64
  revision := "r"
  excludePairs := excludePairs
  hostLabel := none
  hostCpu := none
  hostMemory := none
  filesystem := none
  mountOptions := none
  storageDevice := none
  cacheState := .unspecified
  admission := .exploratory
  optimizationFlags := none
  analysisScriptVersion := none
  noiseBudget := none
  notes := none

/-- Engines of maps in memory; the right one cannot be created in the second repetition. -/
def freshLeft (_ : ExperimentInstanceContext) : Except DbError (List (Bytes × Bytes)) := .ok []

def freshRight (context : ExperimentInstanceContext) : Except DbError (List (Bytes × Bytes)) :=
  if context.repetitionIndex = 1 then .error (.io "disk") else .ok []

/-- A batch of two pairs, of which the first is excluded and the second fails. -/
def twoPairs : Cli := plainArgs 2 ["0=warm up"]

def preparedTwo : Except CliError Prepared :=
  prepare freshLeft freshRight plainSurroundings twoPairs (generatedTrace oneWrite)

def twoSerde : Serde :=
  textSerde ((preparedTwo.toOption.map fun prepared => (prepared.values twoPairs (generatedTrace oneWrite)).map Prod.snd).getD [])
    (generatedTrace oneWrite)

theorem archive_verified_twoPairs : ∃ result archive, run freshLeft freshRight plainSurroundings twoPairs
    (generatedTrace oneWrite) twoSerde = (result, some archive) ∧
    ∃ summary, verifyBatchArchive twoSerde archive (some "r") false = .ok summary := by
  have hcheck : (preparedTwo.toOption.any fun prepared => (prepared.values twoPairs (generatedTrace oneWrite)).all
      fun file => decide ((twoSerde.document file.2).length ≤ maxArchiveJsonBytes) &&
        match twoSerde.fromSlice (twoSerde.document file.2) with
        | .ok value => decide (value = file.2)
        | .error _ => false) = true := by decide +kernel
  obtain ⟨prepared, hprepare⟩ : ∃ prepared, preparedTwo = .ok prepared := by
    rcases h : preparedTwo with e | prepared
    · rw [h] at hcheck
      cases hcheck
    · exact ⟨prepared, rfl⟩
  simp only [hprepare, Except.toOption, Option.any_some, List.all_eq_true, Bool.and_eq_true, decide_eq_true_eq] at hcheck
  have hfiles : ∀ file ∈ prepared.values twoPairs (generatedTrace oneWrite),
      (twoSerde.document file.2).length ≤ maxArchiveJsonBytes ∧
        twoSerde.fromSlice (twoSerde.document file.2) = .ok file.2 := by
    intro file hfile
    obtain ⟨hfits, hread⟩ := hcheck file hfile
    refine ⟨hfits, ?_⟩
    split at hread
    · next value hvalue => rw [hvalue, of_decide_eq_true hread]
    · cases hread
  have hround : ∀ other, prepare freshLeft freshRight plainSurroundings twoPairs (generatedTrace oneWrite) = .ok other →
      twoSerde.RoundTrips (generatedTrace oneWrite) (other.values twoPairs (generatedTrace oneWrite)) := by
    intro other hother
    obtain rfl : prepared = other := Except.ok.inj (hprepare.symm.trans hother)
    exact ⟨fun file hfile => (hfiles file hfile).2, by simp [twoSerde, textSerde]⟩
  obtain ⟨result, hrun⟩ := run_of_prepare twoSerde hprepare
  obtain ⟨other, hother, -, hiff⟩ := archive_verified_iff (some "r") false hrun hround (by simp [twoPairs, plainArgs]) (by simp)
  obtain rfl : prepared = other := Except.ok.inj (hprepare.symm.trans hother)
  exact ⟨_, _, hrun, _, hiff.2 fun file hfile => (hfiles file hfile).1⟩

/-- A batch of one pair on the trace of a million writes, whatever reads its texts. -/
theorem archive_not_verified : (generatedTrace millionWrites).validate = .ok () ∧
    ∀ serde : Serde, serde.toWriterPretty = jsonText →
      ∃ result archive, run freshLeft freshRight plainSurroundings (plainArgs 1 []) (generatedTrace millionWrites) serde =
          (result, some archive) ∧
        ¬ ∃ summary, verifyBatchArchive serde archive none false = .ok summary := by
  have hvalid := validate_generatedTrace millionWrites_valid
  refine ⟨hvalid, fun serde htext => ?_⟩
  obtain ⟨prepared, hprepare⟩ := exists_prepared freshLeft freshRight plainSurroundings (plainArgs 1 [])
    (generatedTrace millionWrites) (requireUsage_eq_ok.2 (by decide +kernel)) (by decide) hvalid rfl rfl rfl
  obtain ⟨result, hrun⟩ := run_of_prepare serde hprepare
  refine ⟨_, _, hrun, ?_⟩
  rintro ⟨summary, hverify⟩
  have hfits := trace_fits_of_verify hverify
  have hlong := millionWrites_long
  rw [Serde.document, List.length_append, htext] at hfits
  omega

end DbLab.Experiment.BatchArchive
