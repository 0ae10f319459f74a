import RiskClaw.AccountStore
import RiskClaw.FixedFormats

/-!
# Programs on serialized cells

A program that keeps its cells as bytes reads the named cell before an
instruction and writes it back into the same buffer; the instruction itself is
read from raw input first. Whatever the input, such a program does what the
program on values does with the inputs that can be read.
-/

namespace RiskClaw.SerializedCells

open ReactiveMachine AccountStore FixedFormats

/-- How a raw input can fail. -/
inductive WireError (δ ε : Type*) where
  /-- The input is not read as an instruction. -/
  | input (error : δ)
  /-- The named cell is not read as a value. -/
  | cell
  /-- The program fails. -/
  | program (error : ε)

/-- Bytes at the front of a buffer. -/
def overwrite (buffer bytes : List UInt8) : List UInt8 := bytes ++ buffer.drop bytes.length

theorem overwrite_of_length {buffer bytes : List UInt8} (h : buffer.length = bytes.length) :
    overwrite buffer bytes = bytes := by
  rw [overwrite, ← h, List.drop_length, List.append_nil]

variable {κ υ ι ε ο ρ δ : Type*} (p : CellProgram κ υ ι ε ο) (f : Format υ)
  (decode : ρ → Except δ ι)

/-- The content of a cell, if there is one; no value when it cannot be read. -/
def load : Option (List UInt8) → Option (Option υ)
  | none => some none
  | some data => (f.read data).map fun r => some r.1

/-- An instruction on a serialized cell. A new cell is a buffer of zeros. -/
def serializedAct (data : Option (List UInt8)) (i : ι) :
    Except (WireError δ ε) (List UInt8 × ο) :=
  match load f data with
  | none => .error .cell
  | some content =>
    match p.act content i with
    | .error e => .error (.program e)
    | .ok r => .ok (overwrite (data.getD (List.replicate f.size 0)) (f.write r.1), r.2)

/-- The program on serialized cells. -/
def serialized (δ : Type*) : CellProgram κ (List UInt8) ι (WireError δ ε) ο where
  cell := p.cell
  act := serializedAct p f

/-- The program on serialized cells and raw inputs. -/
def endpoint [DecidableEq κ] :
    Machine (κ → Option (List UInt8)) ρ (Except (WireError δ ε) ο) where
  step s r :=
    match decode r with
    | .error e => (s, .error (.input e))
    | .ok i => (serialized p f δ).step s i

/-- A store as bytes. -/
def image (s : κ → Option υ) : κ → Option (List UInt8) := fun k => (s k).map f.write

/-- The inputs that can be read, as instructions. -/
def readable (inputs : List ρ) : List ι := inputs.filterMap fun r => (decode r).toOption

theorem readable_concat (inputs : List ρ) (r : ρ) :
    readable decode (inputs ++ [r]) = readable decode inputs ++ (decode r).toOption.toList := by
  rw [readable, List.filterMap_append, readable]
  cases h : decode r with
  | error e => simp [h, Except.toOption]
  | ok i => simp [h, Except.toOption]

theorem load_write (content : Option υ) : load f (content.map f.write) = some content := by
  cases content with
  | none => rfl
  | some v =>
    rw [Option.map_some, load, f.read_written]
    rfl

/-- A written value fills its buffer. -/
theorem overwrite_write (content : Option υ) (v : υ) :
    overwrite ((content.map f.write).getD (List.replicate f.size 0)) (f.write v) = f.write v := by
  refine overwrite_of_length ?_
  rw [f.write_length]
  cases content with
  | none => exact List.length_replicate
  | some old => exact f.write_length old

/-- On the bytes of a value the program does what it does on the value. -/
theorem serializedAct_write (content : Option υ) (i : ι) :
    (serializedAct p f (content.map f.write) i : Except (WireError δ ε) (List UInt8 × ο)) =
      match p.act content i with
      | .error e => .error (.program e)
      | .ok r => .ok (f.write r.1, r.2) := by
  rw [serializedAct, load_write]
  dsimp only
  cases p.act content i with
  | error e => rfl
  | ok r =>
    dsimp only
    rw [overwrite_write]

variable [DecidableEq κ]

theorem image_update (s : κ → Option υ) (k : κ) (v : υ) :
    image f (Function.update s k (some v)) = Function.update (image f s) k (some (f.write v)) := by
  funext j
  by_cases hj : j = k
  · subst hj
    rw [image, Function.update_self, Function.update_self]
    rfl
  · rw [image, Function.update_of_ne hj, Function.update_of_ne hj]
    rfl

/-- One instruction on the bytes of a store. -/
theorem serialized_step (δ : Type*) (s : κ → Option υ) (i : ι) :
    (serialized p f δ).step (image f s) i =
      (image f (p.step s i).1, (p.step s i).2.mapError WireError.program) := by
  have hact := serializedAct_write (δ := δ) p f (s (p.cell i)) i
  rcases p.step_cases s i with ⟨e, he, hstep⟩ | ⟨v, o, hok, hstep⟩
  · rw [he] at hact
    rw [hstep]
    exact (serialized p f δ).step_error hact
  · rw [hok] at hact
    rw [hstep, image_update]
    exact (serialized p f δ).step_ok hact

/-- One raw input on the bytes of a store. -/
theorem endpoint_step (s : κ → Option υ) (r : ρ) :
    (endpoint p f decode).step (image f s) r =
      match decode r with
      | .error e => (image f s, .error (.input e))
      | .ok i => (image f (p.step s i).1, (p.step s i).2.mapError .program) := by
  cases hr : decode r with
  | error e => simp only [endpoint, hr]
  | ok i =>
    simp only [endpoint, hr]
    exact serialized_step p f δ s i

/-- The bytes of a store are never found unreadable. -/
theorem endpoint_reads (s : κ → Option υ) (r : ρ) :
    ((endpoint p f decode).step (image f s) r).2 ≠ .error .cell := by
  rw [endpoint_step]
  cases decode r with
  | error e => exact fun h => by cases h
  | ok i =>
    dsimp only
    cases (p.step s i).2 with
    | error e => exact fun h => by cases h
    | ok o => exact fun h => by cases h

/-- Raw inputs, whatever they are, leave the bytes of the store that the readable ones
leave. -/
theorem endpoint_run (s : κ → Option υ) (inputs : List ρ) :
    (endpoint p f decode).run (image f s) inputs =
      image f (p.machine.run s (readable decode inputs)) := by
  induction inputs generalizing s with
  | nil => rfl
  | cons r inputs ih =>
    have hstep := endpoint_step p f decode s r
    rw [Machine.run_cons, hstep, readable, List.filterMap_cons]
    cases decode r with
    | error e => exact ih s
    | ok i => exact ih (p.step s i).1

/-- The answers that raw inputs get are those of the readable ones. -/
theorem endpoint_answers (s : κ → Option υ) (inputs : List ρ) :
    ((endpoint p f decode).outputs (image f s) inputs).filterMap Except.toOption =
      (p.machine.outputs s (readable decode inputs)).filterMap Except.toOption := by
  induction inputs generalizing s with
  | nil => rfl
  | cons r inputs ih =>
    have hstep := endpoint_step p f decode s r
    rw [Machine.outputs_cons, hstep, readable, List.filterMap_cons, List.filterMap_cons]
    cases decode r with
    | error e => exact ih s
    | ok i =>
      dsimp only [Except.toOption]
      rw [Machine.outputs_cons, List.filterMap_cons, CellProgram.machine_step]
      have hrest := ih (p.step s i).1
      rw [readable] at hrest
      cases (p.step s i).2 with
      | error e => exact hrest
      | ok o => exact congrArg (o :: ·) hrest

end RiskClaw.SerializedCells
