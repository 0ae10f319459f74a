import RiskClaw.AgentRegistration
import RiskClaw.ConfigGrammar

/-!
# The deployment script

The script deploys both programs and writes their addresses into the shared
configuration, each in place of the first text of its name up to the next
semicolon. It does nothing when the configuration that it was loaded with has
both addresses; what it patches is read from the file later. A write that throws
can leave the file cut off. An address is base58, so the replacement texts refer
to nothing.
-/

namespace RiskClaw.DeployScript

open LeftmostSearch ConfigPatch ConfigGrammar AgentRegistration

/-- `RISK_POLICY_PROGRAM_ID`. -/
def riskPolicyName : Text := "RISK_POLICY_PROGRAM_ID".toList

/-- `SWIG_DELEGATION_PROGRAM_ID`. -/
def swigDelegationName : Text := "SWIG_DELEGATION_PROGRAM_ID".toList

/-- A name and its colon. -/
def key (name : Text) : Text := name ++ [':']

/-- `export const NAME:[^;]+;` at one position: the text after the match. -/
def idRegex (name text : Text) : Option Text :=
  match literal (exportConst ++ key name) text with
  | none => none
  | some rest =>
    match rest.dropWhile fun c => c ≠ ';' with
    | [] => none
    | _ :: after => if rest.head? = some ';' then none else some after

/-- The type of an address, and its equals sign. -/
def idType : Text := " string | null = ".toList

/-- The address of a program. -/
structure ProgramId extends Address where
  /-- It is not empty. -/
  nonempty : text.toList ≠ []
  deriving DecidableEq

/-- The value of a declared address. -/
def idValue : Option ProgramId → Text
  | none => "null".toList
  | some id => Char.ofNat 34 :: id.text.toList ++ [Char.ofNat 34]

/-- The declaration of an address after its keyword. -/
def idDeclaration (name : Text) (id : Option ProgramId) : Text :=
  key name ++ (idType ++ (idValue id ++ [';']))

/-- `String.replace` with the expression of a name and the declaration of an address. -/
def replaceId (name : Text) (id : ProgramId) (text : Text) : Text :=
  match leftmost (idRegex name) text with
  | some (before, after) => before ++ (exportConst ++ idDeclaration name (some id)) ++ after
  | none => text

/-- The addresses of the programs. -/
structure ProgramIds where
  /-- Of `risk_policy`. -/
  riskPolicy : ProgramId
  /-- Of `swig_delegation`. -/
  swigDelegation : ProgramId
  deriving DecidableEq

/-- The new text that `patchConfig` computes. -/
def patchIds (programIds : ProgramIds) (before : Text) : Text :=
  replaceId swigDelegationName programIds.swigDelegation
    (replaceId riskPolicyName programIds.riskPolicy before)

/-- The value of a declaration: `null`, or a string without escapes. -/
def readValue (text : Text) : Option (Option Text) :=
  match literal "null;".toList text with
  | some _ => some none
  | none =>
    match literal [Char.ofNat 34] text with
    | none => none
    | some body =>
      if (body.dropWhile fun c => c ≠ Char.ofNat 34).take 2 = [Char.ofNat 34, ';'] then
        some (some (body.takeWhile fun c => c ≠ Char.ofNat 34))
      else none

/-- What a module that imports the configuration gets for the name of an address, if
the text is that of a module; nothing, where the declaration is of another form. -/
def importedId (name text : Text) : Option (Option Text) :=
  (exported (exportConst ++ key name) (.code []) text).bind fun rest =>
    (literal idType rest).bind readValue

/-- A value that is true in a condition. -/
def truthy : Option Text → Bool
  | none => false
  | some text => text ≠ []

/-- What the surroundings do during one run. -/
structure DeployFaults where
  /-- `--dry-run` is among the arguments. -/
  dryRun : Bool
  /-- The endpoint is no address, or reading the wallet or its balance throws. -/
  walletFails : Bool
  /-- Balance of the wallet in lamports. -/
  balance : ℕ
  /-- One of the commands throws: setting the cluster, building, syncing the keys,
  building again, deploying. -/
  commandFails : Bool
  /-- The address in the key file of `risk_policy`, if it can be read. -/
  riskPolicy : Option ProgramId
  /-- The address in the key file of `swig_delegation`, if it can be read. -/
  swigDelegation : Option ProgramId
  /-- Reading the configuration throws. -/
  configReadFails : Bool
  /-- Writing the configuration. -/
  configWrite : Write

/-- The addresses of a deployment: the keys of both programs, after all commands. -/
def deployed (input : DeployFaults) : Option ProgramIds :=
  if input.walletFails = true ∨ input.balance < 2500000000 ∨ input.commandFails = true then none
  else
    match input.riskPolicy, input.swigDelegation with
    | some riskPolicy, some swigDelegation => some ⟨riskPolicy, swigDelegation⟩
    | _, _ => none

/-- What a run shows for itself: whether it came to its end. -/
abbrev DeployResult := Bool

/-- The `main` function of the script, with the configuration that it was loaded
with and the one that it reads. A dry run asks for no balance, runs no command and
writes nothing. An import without its declaration ends the run; declarations of
another form are not distinguished from this. -/
def deploy (loaded config : Text) (input : DeployFaults) : Text × DeployResult :=
  match importedId riskPolicyName loaded, importedId swigDelegationName loaded with
  | some riskPolicy, some swigDelegation =>
    if truthy riskPolicy = true ∧ truthy swigDelegation = true then (config, true)
    else if input.dryRun = true then
      (config, !input.walletFails && !input.configReadFails)
    else
      match deployed input with
      | none => (config, false)
      | some programIds =>
        if input.configReadFails = true then (config, false)
        else (input.configWrite.text config (patchIds programIds config),
          input.configWrite = .done)
  | _, _ => (config, false)

end RiskClaw.DeployScript
