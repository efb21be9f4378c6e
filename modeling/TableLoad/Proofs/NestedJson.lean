import TableLoad.Proofs.JsonMachine
import TableLoad.Proofs.Utf8

namespace TableLoad.Json

mutual

/-- How many arrays and objects stand one inside the other. -/
def depth : Json → Nat
  | array es => depthElements es + 1
  | object ms => depthMembers ms + 1
  | _ => 0

def depthElements : List Json → Nat
  | [] => 0
  | v :: vs => max (depth v) (depthElements vs)

def depthMembers : List (String × Json) → Nat
  | [] => 0
  | (_, v) :: ms => max (depth v) (depthMembers ms)

end

theorem depthElements_append (vs us : List Json) :
    depthElements (vs ++ us) = max (depthElements vs) (depthElements us) := by
  induction vs with
  | nil => simp [depthElements]
  | cons v vs ih => rw [List.cons_append, depthElements, depthElements, ih, max_assoc]

theorem depthElements_reverse (vs : List Json) : depthElements vs.reverse = depthElements vs := by
  induction vs with
  | nil => rfl
  | cons v vs ih =>
    rw [List.reverse_cons, depthElements_append, ih, depthElements, depthElements, depthElements,
      Nat.max_zero, max_comm]

theorem depthMembers_append (ms ns : List (String × Json)) :
    depthMembers (ms ++ ns) = max (depthMembers ms) (depthMembers ns) := by
  induction ms with
  | nil => simp [depthMembers]
  | cons m ms ih => rw [List.cons_append, depthMembers, depthMembers, ih, max_assoc]

theorem depthMembers_reverse (ms : List (String × Json)) :
    depthMembers ms.reverse = depthMembers ms := by
  induction ms with
  | nil => rfl
  | cons m ms ih =>
    rw [List.reverse_cons, depthMembers_append, ih, depthMembers, depthMembers, depthMembers,
      Nat.max_zero, max_comm]

namespace Reader

/-- How deep what the mode holds already is. -/
def Mode.reach : Mode → Nat
  | .after v => v.depth
  | .key held _ | .colon held _ | .string _ _ (some held) => depthMembers held + 1
  | _ => 0

def Frame.reach (f : Frame) (inner : Nat) : Nat :=
  match f with
  | .array held => max (depthElements held) inner + 1
  | .object held _ => max (depthMembers held) inner + 1

/-- How deep the whole value is at least. -/
def State.reach (s : State) : Nat :=
  s.frames.foldl (fun inner f => f.reach inner) s.mode.reach

section Reach

variable {s s' : State} {b : UInt8}

theorem Frame.reach_mono (f : Frame) {m n : Nat} (h : m ≤ n) : f.reach m ≤ f.reach n := by
  cases f <;> simp only [Frame.reach] <;> omega

theorem foldl_reach_mono (frames : List Frame) {m n : Nat} (h : m ≤ n) :
    frames.foldl (fun inner f => f.reach inner) m ≤
      frames.foldl (fun inner f => f.reach inner) n := by
  induction frames generalizing m n with
  | nil => exact h
  | cons f frames ih => exact ih (f.reach_mono h)

theorem length_add_le_foldl (frames : List Frame) (n : Nat) :
    frames.length + n ≤ frames.foldl (fun inner f => f.reach inner) n := by
  induction frames generalizing n with
  | nil => simp
  | cons f frames ih =>
    have hstep : n + 1 ≤ f.reach n := by
      cases f <;> simp only [Frame.reach] <;> omega
    have hrest := ih (f.reach n)
    rw [List.foldl_cons, List.length_cons]
    omega

theorem State.level_le_reach (s : State) : s.level ≤ s.reach := by
  obtain ⟨mode, frames⟩ := s
  have hframes := length_add_le_foldl frames mode.reach
  simp only [State.level, State.reach]
  split <;> simp only [Mode.reach] at hframes ⊢ <;> omega

theorem Mode.Ends.reach_le {mode : Mode} {v : Json} (h : mode.Ends b v) :
    mode.reach ≤ v.depth := by
  cases h <;> simp [Mode.reach]

theorem Mode.Begun.reach_eq {mode : Mode} (h : mode.Begun b) : mode.reach = 0 := by
  cases h <;> rfl

/-- What is deep stays deep. -/
theorem Moves.reach_le (h : Moves s b s') : s.reach ≤ s'.reach := by
  cases h with
  | skip => exact Nat.le_refl _
  | @begin _ mode frames _ hbegun =>
    show frames.foldl _ 0 ≤ frames.foldl _ mode.reach
    rw [hbegun.reach_eq]
  | @openArray _ frames => exact foldl_reach_mono frames (Nat.zero_le _)
  | @openObject _ frames => exact foldl_reach_mono frames (Nat.zero_le _)
  | @noElement held frames =>
    refine foldl_reach_mono frames ?_
    simp [Frame.reach, Mode.reach, depth, depthElements_reverse]
  | letter => exact Nat.le_refl _
  | @lastLetter _ _ frames => exact foldl_reach_mono frames (Nat.zero_le _)
  | digit => exact Nat.le_refl _
  | @character _ _ _ _ keyOf => cases keyOf <;> exact Nat.le_refl _
  | @endText _ _ frames => exact foldl_reach_mono frames (Nat.zero_le _)
  | endKey => exact Nat.le_refl _
  | key => exact Nat.le_refl _
  | @noMember held frames =>
    refine foldl_reach_mono frames ?_
    simp [Mode.reach, depth, depthMembers_reverse]
  | @colon held key frames =>
    refine foldl_reach_mono frames ?_
    simp [Frame.reach, Mode.reach]
  | @rest _ _ frames _ hends => exact foldl_reach_mono frames hends.reach_le
  | @nextElement mode v held frames hends =>
    have hv := hends.reach_le
    refine foldl_reach_mono frames ?_
    show (Frame.array held).reach mode.reach ≤ (Frame.array (v :: held)).reach 0
    simp only [Frame.reach, depthElements]
    omega
  | @closeArray mode v held frames hends =>
    have hv := hends.reach_le
    refine foldl_reach_mono frames ?_
    show (Frame.array held).reach mode.reach ≤ (array (v :: held).reverse).depth
    simp only [Frame.reach, depth, depthElements_reverse, depthElements]
    omega
  | @nextMember mode v held key frames hends =>
    have hv := hends.reach_le
    refine foldl_reach_mono frames ?_
    show (Frame.object held key).reach mode.reach ≤ depthMembers ((key, v) :: held) + 1
    simp only [Frame.reach, depthMembers]
    omega
  | @closeObject mode v held key frames hends =>
    have hv := hends.reach_le
    refine foldl_reach_mono frames ?_
    show (Frame.object held key).reach mode.reach ≤ (object ((key, v) :: held).reverse).depth
    simp only [Frame.reach, depth, depthMembers_reverse, depthMembers]
    omega

end Reach

section Inside

variable {s s' : State} {b : UInt8} {bs : List UInt8} {v : Json} {frames base : List Frame}

/-- The state with further arrays and objects open around it. -/
def State.inside (s : State) (base : List Frame) : State :=
  ⟨s.mode, s.frames ++ base⟩

/-- What is open further out does not matter to a move, as long as not too much is open. -/
theorem Moves.inside (h : Moves s b s') (hlevel : s'.level + base.length ≤ maxDepth) :
    Moves (s.inside base) b (s'.inside base) := by
  cases h with
  | skip hwaits hspace => exact .skip hwaits hspace
  | begin hbegun => exact .begin hbegun
  | openArray =>
    refine .openArray ?_
    simp only [State.level, List.length_cons, List.length_append] at hlevel ⊢
    omega
  | openObject =>
    refine .openObject ?_
    simp only [State.level, List.length_append] at hlevel ⊢
    omega
  | noElement => exact .noElement
  | letter howed => exact .letter howed
  | lastLetter => exact .lastLetter
  | digit hstep => exact .digit hstep
  | character hplain hstep => exact .character hplain hstep
  | endText hdecode => exact .endText hdecode
  | endKey hdecode => exact .endKey hdecode
  | key => exact .key
  | noMember => exact .noMember
  | colon => exact .colon
  | rest hends hspace => exact .rest hends hspace
  | nextElement hends => exact .nextElement hends
  | closeArray hends => exact .closeArray hends
  | nextMember hends => exact .nextMember hends
  | closeObject hends => exact .closeObject hends

theorem run_reach_le (h : run s bs = .ok s') : s.reach ≤ s'.reach := by
  induction bs generalizing s with
  | nil =>
    cases h
    exact Nat.le_refl _
  | cons b bs ih =>
    obtain ⟨u, hstep, hrun⟩ := run_cons_eq_ok.mp h
    exact (moves_of_step hstep).reach_le.trans (ih hrun)

theorem run_inside (base : List Frame) (h : run s bs = .ok s')
    (hreach : s'.reach + base.length ≤ maxDepth) : run (s.inside base) bs = .ok (s'.inside base) := by
  induction bs generalizing s with
  | nil =>
    cases h
    rfl
  | cons b bs ih =>
    obtain ⟨u, hstep, hrun⟩ := run_cons_eq_ok.mp h
    -- The reach at the end is the largest on the way, so the one bound covers all that is opened.
    have hlevel : u.level + base.length ≤ maxDepth := by
      have hu := u.level_le_reach
      have hrest := run_reach_le hrun
      omega
    have hmoves := (moves_of_step hstep).inside hlevel
    exact run_cons_eq_ok.mpr ⟨_, step_of_moves hmoves, ih hrun⟩

/-- Where an array may also close, a value begins as it does elsewhere. -/
theorem Moves.of_value (h : Moves ⟨.value false, frames⟩ b s') (mayClose : Bool) :
    s' = ⟨.value false, frames⟩ ∧ Moves ⟨.value mayClose, frames⟩ b ⟨.value mayClose, frames⟩ ∨
      Moves ⟨.value mayClose, frames⟩ b s' := by
  cases h with
  | skip hwaits hspace => exact .inl ⟨rfl, .skip .value hspace⟩
  | begin hbegun => exact .inr (.begin hbegun)
  | openArray hdepth => exact .inr (.openArray hdepth)
  | openObject hdepth => exact .inr (.openObject hdepth)
  | rest hends | nextElement hends | closeArray hends | nextMember hends | closeObject hends =>
    cases hends

theorem run_of_value (h : run ⟨.value false, frames⟩ bs = .ok s') (hmode : s'.mode ≠ .value false)
    (mayClose : Bool) : run ⟨.value mayClose, frames⟩ bs = .ok s' := by
  induction bs with
  | nil =>
    cases h
    exact absurd rfl hmode
  | cons b bs ih =>
    obtain ⟨u, hstep, hrun⟩ := run_cons_eq_ok.mp h
    rcases (moves_of_step hstep).of_value mayClose with ⟨rfl, hmoves⟩ | hmoves
    · exact run_cons_eq_ok.mpr ⟨_, step_of_moves hmoves, ih hrun⟩
    · exact run_cons_eq_ok.mpr ⟨_, step_of_moves hmoves, hrun⟩

theorem numberStep_eq_none {stage : NumberStage} {d : Digits} (hb : b = 0x2C ∨ b = 0x5D) :
    numberStep stage d b = none := by
  rcases hb with rfl | rfl <;> cases stage <;> rfl

theorem ends_of_finish (h : finish? s = some v) (hb : b = 0x2C ∨ b = 0x5D) :
    s.frames = [] ∧ s.mode.Ends b v := by
  obtain ⟨mode, frames⟩ := s
  simp only [finish?] at h
  split at h
  · cases h
    exact ⟨rfl, .after⟩
  · obtain ⟨n, hn, rfl⟩ := Option.map_eq_some_iff.mp h
    exact ⟨rfl, .number (numberStep_eq_none hb) hn⟩
  · cases h

theorem run_element (held : List Json) (mayClose : Bool) (h : run start bs = .ok s)
    (hv : finish? s = some v) (hdepth : v.depth + 1 ≤ maxDepth) (hb : b = 0x2C ∨ b = 0x5D) :
    ∃ mode, mode.Ends b v ∧
      run ⟨.value mayClose, [.array held]⟩ bs = .ok ⟨mode, [.array held]⟩ := by
  obtain ⟨hframes, hends⟩ := ends_of_finish hv hb
  obtain ⟨mode, frames⟩ := s
  cases hframes
  refine ⟨mode, hends, run_of_value (run_inside [.array held] h ?_) ?_ mayClose⟩
  · have hreach : (⟨mode, []⟩ : State).reach ≤ v.depth := hends.reach_le
    rw [List.length_singleton]
    omega
  · intro hmode
    cases hends <;> cases hmode

end Inside

section Array

variable {texts : List (List UInt8)} {text : List UInt8} {vs : List Json} {v : Json}

/-- Every text is read, to a value that leaves room for one more array around it. -/
def Nested (texts : List (List UInt8)) (vs : List Json) : Prop :=
  List.Forall₂ (fun text v => read text = .ok v ∧ v.depth + 1 ≤ maxDepth) texts vs

theorem run_elements (h : Nested (text :: texts) (v :: vs)) (held : List Json)
    (mayClose : Bool) :
    run ⟨.value mayClose, [.array held]⟩ ([0x2C].intercalate (text :: texts) ++ [0x5D]) =
      .ok ⟨.after (.array (held.reverse ++ v :: vs)), []⟩ := by
  induction texts generalizing text v vs held mayClose with
  | nil =>
    obtain ⟨⟨hread, hdepth⟩, hnil⟩ := List.forall₂_cons.mp h
    cases hnil
    obtain ⟨s, hrun, hv⟩ := read_eq_ok.mp hread
    obtain ⟨mode, hends, hrun⟩ := run_element held mayClose hrun hv hdepth (.inr rfl)
    rw [List.intercalate_singleton, run_append _ _ _ _ hrun]
    have hclose : step ⟨mode, [.array held]⟩ 0x5D =
        some ⟨.after (.array (v :: held).reverse), []⟩ := step_of_moves (.closeArray hends)
    exact run_cons_eq_ok.mpr ⟨_, hclose, by simp [run]⟩
  | cons next texts ih =>
    obtain ⟨⟨hread, hdepth⟩, hrest⟩ := List.forall₂_cons.mp h
    obtain ⟨u, us, hnext, -, rfl⟩ := List.forall₂_cons_left_iff.mp hrest
    obtain ⟨s, hrun, hv⟩ := read_eq_ok.mp hread
    obtain ⟨mode, hends, hrun⟩ := run_element held mayClose hrun hv hdepth (.inl rfl)
    have hcomma : step ⟨mode, [.array held]⟩ 0x2C =
        some ⟨.value false, [.array (v :: held)]⟩ := step_of_moves (.nextElement hends)
    rw [List.intercalate_cons_cons, List.append_assoc, List.append_assoc, run_append _ _ _ _ hrun]
    refine run_cons_eq_ok.mpr ⟨_, hcomma, ?_⟩
    have htail := ih hrest (v :: held) false
    rwa [List.reverse_cons, List.append_assoc] at htail

theorem read_array (h : Nested texts vs) :
    read (0x5B :: [0x2C].intercalate texts ++ [0x5D]) = .ok (.array vs) := by
  have hopen : step start 0x5B = some ⟨.value true, [.array []]⟩ :=
    step_of_moves (.openArray (by decide))
  cases h with
  | nil => rfl
  | @cons text v texts vs hfirst hrest =>
    have hrun := run_elements (List.forall₂_cons.mpr ⟨hfirst, hrest⟩) [] true
    exact read_eq_ok.mpr ⟨_, run_cons_eq_ok.mpr ⟨_, hopen, hrun⟩, rfl⟩

end Array

end Reader

/-- The text of an array is read to what its elements are read to. -/
theorem readText?_array {texts : List String} {vs : List Json}
    (h : List.Forall₂ (fun text v => readText? text = some v ∧ v.depth ≤ 126) texts vs) :
    readText? ("[" ++ ",".intercalate texts ++ "]") = some (.array vs) := by
  have helements : Reader.Nested (texts.map Text.Utf8.encode) vs :=
    List.forall₂_map_left_iff.mpr
      (h.imp fun text v hv => ⟨readText?_eq_some.mp hv.1, Nat.succ_le_succ hv.2⟩)
  have hopen : Text.Utf8.encode "[" = [0x5B] := Text.Utf8.encode_ofList ['[']
  have hcomma : Text.Utf8.encode "," = [0x2C] := Text.Utf8.encode_ofList [',']
  have hclose : Text.Utf8.encode "]" = [0x5D] := Text.Utf8.encode_ofList [']']
  have hencode : Text.Utf8.encode ("[" ++ ",".intercalate texts ++ "]") =
      0x5B :: [0x2C].intercalate (texts.map Text.Utf8.encode) ++ [0x5D] := by
    simp only [Text.Utf8.encode_append, Text.Utf8.encode_intercalate, hopen, hcomma, hclose]
    rfl
  rw [readText?_eq_some, hencode]
  exact Reader.read_array helements

end TableLoad.Json
