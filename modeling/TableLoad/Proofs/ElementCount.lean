import TableLoad.Proofs.JsonMachine
import TableLoad.Record.Elements

namespace TableLoad

namespace Json

/-- How many elements an array has; no other value has any. -/
def width : Json → Nat
  | array es => es.length
  | _ => 0

theorem length_settledElements (vs : List Json) : (settledElements vs).length = vs.length := by
  induction vs with
  | nil => rfl
  | cons v vs ih => rw [settledElements, List.length_cons, List.length_cons, ih]

namespace Reader

/-- How many elements the value has that the mode has read. -/
def Mode.width : Mode → Nat
  | .after v | .word _ v => v.width
  | _ => 0

/-- How many elements of the array are complete. -/
def Frame.width : Frame → Nat
  | .array held => held.length
  | .object .. => 0

/-- How many elements of the outermost array are complete. -/
def State.width (s : State) : Nat :=
  s.frames.foldl (fun _ f => f.width) s.mode.width

section Width

variable {s s' : State} {b : UInt8} {bs : List UInt8} {v : Json}

theorem foldl_width_le (frames : List Frame) {m n : Nat} (h : m ≤ n + 1) :
    frames.foldl (fun _ f => f.width) m ≤ frames.foldl (fun _ f => f.width) n + 1 := by
  cases frames with
  | nil => exact h
  | cons f frames => exact Nat.le_succ _

theorem Mode.Ends.width_eq {mode : Mode} (h : mode.Ends b v) : mode.width = v.width := by
  cases h <;> rfl

theorem Mode.Begun.width_eq {mode : Mode} (h : mode.Begun b) : mode.width = 0 := by
  cases h <;> rfl

/-- One octet completes one element of the outermost array at most. -/
theorem Moves.width_le (h : Moves s b s') : s'.width ≤ s.width + 1 := by
  cases h with
  | skip | letter | digit | character | endKey | key => exact Nat.le_succ _
  | openArray | openObject | lastLetter | endText | noMember | colon => exact Nat.le_succ _
  | nextMember | closeObject => exact Nat.le_succ _
  | @begin _ mode frames _ hbegun =>
    refine foldl_width_le frames ?_
    rw [hbegun.width_eq]
    exact Nat.zero_le _
  | @noElement held frames =>
    refine foldl_width_le frames ?_
    show held.reverse.length ≤ held.length + 1
    rw [List.length_reverse]
    exact Nat.le_succ _
  | @rest mode v frames _ hends =>
    refine foldl_width_le frames ?_
    show v.width ≤ mode.width + 1
    rw [hends.width_eq]
    exact Nat.le_succ _
  | @nextElement _ v held frames hends =>
    exact foldl_width_le frames (Nat.le_refl (held.length + 1))
  | @closeArray _ v held frames hends =>
    refine foldl_width_le frames ?_
    show (v :: held).reverse.length ≤ held.length + 1
    rw [List.length_reverse, List.length_cons]

theorem run_width_le (h : run s bs = .ok s') : s'.width ≤ s.width + bs.length := by
  induction bs generalizing s with
  | nil =>
    cases h
    exact Nat.le_refl _
  | cons b bs ih =>
    obtain ⟨u, hstep, hrun⟩ := run_cons_eq_ok.mp h
    have hfirst := (moves_of_step hstep).width_le
    have hrest := ih hrun
    rw [List.length_cons]
    omega

theorem finish_width_le (h : finish? s = some v) : v.width ≤ s.width := by
  obtain ⟨mode, frames⟩ := s
  simp only [finish?] at h
  split at h
  · cases h
    exact Nat.le_refl _
  · obtain ⟨n, -, rfl⟩ := Option.map_eq_some_iff.mp h
    exact Nat.zero_le _
  · cases h

theorem read_width_le (h : read bs = .ok v) : v.width ≤ bs.length := by
  obtain ⟨s, hrun, hv⟩ := read_eq_ok.mp h
  have hstart : start.width = 0 := rfl
  have hwidth := run_width_le hrun
  have hfinish := finish_width_le hv
  omega

end Width

end Reader

end Json

namespace Elements

/-- How many elements a document has. A single object is one, and so is a document that cannot be
read. -/
def elementCount (octets : List UInt8) : Nat :=
  match Json.Reader.read octets with
  | .ok (.array es) => es.length
  | _ => 1

variable {octets : List UInt8}

theorem elementCount_le (octets : List UInt8) : elementCount octets ≤ octets.length + 1 := by
  rw [elementCount]
  split
  · rename_i hread
    have hwidth := Json.Reader.read_width_le hread
    exact Nat.le_succ_of_le hwidth
  · exact Nat.le_add_left 1 _

theorem length_of_load {fails : Bool} {elements : List Json}
    (h : load octets fails = .ok elements) : elements.length = elementCount octets := by
  cases hread : Json.Reader.read octets with
  | error f => simp [load, hread] at h
  | ok v =>
    cases fails with
    | true => simp [load, hread] at h
    | false =>
      cases v with
      | array es =>
        have helements : Json.settledElements es = elements := by
          simpa [load, hread, Json.settled] using h
        rw [elementCount, hread, ← helements, Json.length_settledElements]
      | object ms =>
        have helements :
            [Json.object (Keyed.ofList (Json.settledMembers ms)).entries] = elements := by
          simpa [load, hread, Json.settled] using h
        rw [elementCount, hread, ← helements]
        rfl
      | null | bool | number | string => simp [load, hread, Json.settled] at h

theorem elementCount_of_error {e : LoadError} (h : load octets false = .error e) :
    elementCount octets = 1 := by
  rw [elementCount]
  split
  · rename_i es hread
    simp [load, hread, Json.settled] at h
  · rfl

end Elements

end TableLoad
