import OthelloBook.Proofs.Evaluation.Sources
import OthelloBook.Proofs.Json.Texts
import OthelloBook.Wire.Decode
import OthelloBook.Wire.Message

/-!
# Readers that fit their writers

A reader fits a writer if it reads back whatever is written for a value that qualifies, and reads
nothing that does not qualify. Lists, options and records of values keep to this if their parts do,
and so does a check after the reading that is passed by all values that qualify.
-/
namespace OthelloBook.Wire

open Json

/-- What is written for a value that qualifies is read as this value, and whatever is read
qualifies. -/
structure Codec {α : Type} (read : Decoder α) (write : α → Json) (good : α → Prop) : Prop where
  inRange {a : α} (h : good a) : (write a).InRange
  back {a : α} (h : good a) : read (write a).reading = .ok a
  checked {d : Draft} {a : α} (h : read d = .ok a) : good a

variable {α β σ : Type} {read : Decoder α} {write : α → Json} {good : α → Prop}

/-- To decode the text of a value is to read what stands for the value. -/
theorem decodeText_text (read : Decoder α) {v : Json} (h : v.InRange) :
    decodeText read v.text = read v.reading := by
  rw [decodeText, ofText_text h]
  dsimp only
  cases read v.reading <;> rfl

/-- The text of a value that qualifies is read as this value. -/
theorem Codec.decodeText_text (h : Codec read write good) {a : α} (ha : good a) :
    decodeText read (write a).text = .ok a := by
  rw [Wire.decodeText_text read (h.inRange ha), h.back ha]

theorem decodeText_eq_ok {s : String} {a : α} (h : decodeText read s = .ok a) :
    ∃ d, read d = .ok a := by
  rw [decodeText] at h
  refine ⟨(Draft.ofText s).1, ?_⟩
  cases hread : read (Draft.ofText s).1 with
  | error e =>
    simp only [hread] at h
    cases h
  | ok b =>
    simp only [hread] at h
    split at h
    · exact h
    · cases h

/-- A value whose text was read qualifies. -/
theorem Codec.good_of_decodeText (h : Codec read write good) {s : String} {a : α}
    (hread : decodeText read s = .ok a) : good a := by
  obtain ⟨d, hd⟩ := decodeText_eq_ok hread
  exact h.checked hd

theorem exists_of_map_eq_ok {ε : Type} {x : Except ε α} {f : α → β} {b : β}
    (h : x.map f = .ok b) : ∃ a, x = .ok a ∧ f a = b := by
  cases x with
  | error e => cases h
  | ok a => exact ⟨a, rfl, Except.ok.inj h⟩

section Combinators

/-- A change between two forms of a value, one of which is written. -/
theorem Codec.map (h : Codec read write good) (f : α → β) (g : β → α) {read' : Decoder β}
    {write' : β → Json} {good' : β → Prop} (hread' : ∀ d, read' d = (read d).map f)
    (hwrite' : ∀ b, write' b = write (g b)) (hfg : ∀ b, f (g b) = b)
    (hg : ∀ b, good' b → good (g b)) (hf : ∀ a, good a → good' (f a)) :
    Codec read' write' good' where
  inRange {b} hb := hwrite' b ▸ h.inRange (hg b hb)
  back {b} hb := by
    rw [hread', hwrite', h.back (hg b hb)]
    exact congrArg Except.ok (hfg b)
  checked {d b} hread := by
    rw [hread'] at hread
    obtain ⟨a, hd, rfl⟩ := exists_of_map_eq_ok hread
    exact hf a (h.checked hd)

/-- A check after the reading. -/
theorem Codec.refuse (h : Codec read write good) (f : α → Except BookError β) (g : β → α)
    {read' : Decoder β} {good' : β → Prop}
    (hread' : ∀ d, read' d = (read d).bind fun a => Wire.refuse (f a))
    (hg : ∀ b, good' b → good (g b)) (hfg : ∀ b, good' b → f (g b) = .ok b)
    (hf : ∀ a b, f a = .ok b → good' b) : Codec read' (fun b => write (g b)) good' where
  inRange hb := h.inRange (hg _ hb)
  back {b} hb := by
    rw [hread', h.back (hg b hb), Except.bind, hfg b hb]
    rfl
  checked {d b} hread := by
    rw [hread'] at hread
    cases hd : read d with
    | error e =>
      rw [hd] at hread
      cases hread
    | ok a =>
      rw [hd] at hread
      exact hf a b (mapError_eq_ok_iff.1 hread)

theorem readItems_eq_ok (h : Codec read write good) {ds : List Draft} {as : List α}
    (hread : readItems read ds = .ok as) : ∀ a ∈ as, good a := by
  induction ds generalizing as with
  | nil =>
    cases hread
    simp
  | cons d ds ih =>
    rw [readItems] at hread
    cases hd : read d with
    | error e =>
      rw [hd] at hread
      cases hread
    | ok a =>
      rw [hd] at hread
      obtain ⟨bs, hds, rfl⟩ := exists_of_map_eq_ok hread
      exact List.forall_mem_cons.2 ⟨h.checked hd, ih hds⟩

theorem readItems_back (h : Codec read write good) {as : List α} (has : ∀ a ∈ as, good a) :
    readItems read (itemReadings (as.map write)) = .ok as := by
  induction as with
  | nil => rfl
  | cons a as ih =>
    obtain ⟨ha, has⟩ := List.forall_mem_cons.1 has
    rw [List.map_cons, itemReadings, readItems, h.back ha, ih has]
    rfl

theorem Codec.list (h : Codec read write good) :
    Codec (readList read) (fun as => .arr (as.map write)) (fun as => ∀ a ∈ as, good a) where
  inRange has := .arr (List.forall_mem_map.2 fun a ha => h.inRange (has a ha))
  back has := by
    rw [reading, readList, readItems_back h has]
    rfl
  checked {d as} hread := by
    cases d with
    | arr ds closed =>
      rw [readList] at hread
      cases hds : readItems read ds with
      | error e =>
        rw [hds] at hread
        cases hread
      | ok bs =>
        rw [hds] at hread
        dsimp only at hread
        split at hread
        · cases hread
          exact readItems_eq_ok h hds
        · cases hread
    | _ => cases hread

end Combinators

section Parts

theorem codec_readInt {low high : ℤ} (hlow : -(2 ^ 63) ≤ low) (hhigh : high < 2 ^ 64) :
    Codec (readInt low high) .int fun n => low ≤ n ∧ n ≤ high where
  inRange h := .int ⟨Int.le_trans hlow h.1, Int.lt_of_le_of_lt h.2 hhigh⟩
  back h := if_pos h
  checked {d n} hread := by
    rw [readInt.eq_def] at hread
    split at hread
    · split at hread
      · rename_i m h
        cases hread
        exact h
      · cases hread
    · cases hread

theorem codec_readNat {max : ℕ} (hmax : max < 2 ^ 64) :
    Codec (readNat max) Json.nat fun n => n ≤ max :=
  (codec_readInt (by omega) (by omega)).map Int.toNat (fun n => (n : ℤ)) (fun _ => rfl)
    (fun _ => rfl) Int.toNat_natCast (fun n hn => by omega) fun z hz => by omega

theorem codec_readString : Codec readString .str fun _ => True where
  inRange _ := .str _
  back _ := rfl
  checked _ := trivial

def Apart (p : Position) : Prop := p.own &&& p.opposing = 0

instance (p : Position) : Decidable (Apart p) := inferInstanceAs (Decidable (_ = _))

theorem codec_readPosition : Codec readPosition ofPosition Apart :=
  codec_readString.refuse Position.parse Position.text
    (fun d => by rw [readPosition]; cases readString d <;> rfl) (fun _ _ => trivial)
    (fun p _ => p.parse_text) fun _ p _ => p.disjoint

theorem codec_readSignedByte : Codec readSignedByte .int fun z => -128 ≤ z ∧ z ≤ 127 :=
  codec_readInt (by decide) (by decide)

theorem codec_readByte : Codec readByte Json.nat fun n => n ≤ 255 := codec_readNat (by decide)

theorem index_bounds (m : Move) : -128 ≤ m.index ∧ m.index ≤ 127 := by
  cases m with
  | play s => simp only [Move.index]; omega
  | pass => decide

theorem codec_readMove : Codec readMove ofMove fun _ => True :=
  codec_readSignedByte.refuse Move.ofIndex Move.index
    (fun d => by rw [readMove]; cases readSignedByte d <;> rfl) (fun m _ => index_bounds m)
    (fun m _ => by rw [Move.ofIndex, Move.ofIndex?_index]) fun _ _ _ => trivial

theorem codec_readConfidence : Codec readConfidence ofConfidence fun _ => True :=
  codec_readByte.refuse Confidence.ofPercent Confidence.percent
    (fun d => by rw [readConfidence]; cases readByte d <;> rfl) (fun c _ => by cases c <;> decide)
    (fun c _ => by rw [Confidence.ofPercent, Confidence.ofPercent?_percent]) fun _ _ _ => trivial

end Parts

section Records

variable {r : Record σ α} {s s' : σ} {a : α}

theorem readMembers_cons {k : String} {d : Draft} {rest : List (Option String × Draft)}
    {seen : List ℕ} {place : ℕ} (hname : r.names.idxOf? k = some place) (hseen : place ∉ seen)
    (hmember : r.member place d s = .ok s') :
    r.readMembers seen ((some k, d) :: rest) s = r.readMembers (place :: seen) rest s' := by
  rw [Record.readMembers]
  simp only [hname, if_neg hseen, hmember]

section Invariants

variable {P : σ → Prop}
  (hmember : ∀ place d s s', P s → r.member place d s = .ok s' → P s')

include hmember

theorem readPlaces_keeps {ds : List Draft} {place : ℕ} (hs : P s)
    (h : r.readPlaces place ds s = .ok s') : P s' := by
  induction ds generalizing place s with
  | nil =>
    rw [Record.readPlaces] at h
    split at h
    · cases h
      exact hs
    · cases h
  | cons d ds ih =>
    rw [Record.readPlaces] at h
    split at h
    · cases h
    · cases hd : r.member place d s with
      | error e =>
        rw [hd] at h
        cases h
      | ok s₁ =>
        rw [hd] at h
        exact ih (hmember place d s s₁ hs hd) h

theorem readMembers_keeps {ms : List (Option String × Draft)} {seen : List ℕ} (hs : P s)
    (h : r.readMembers seen ms s = .ok s') : P s' := by
  induction ms generalizing seen s with
  | nil =>
    cases h
    exact hs
  | cons m ms ih =>
    obtain ⟨_ | k, d⟩ := m
    · cases h
    · rw [Record.readMembers] at h
      split at h
      · exact ih hs h
      · rename_i place _
        split at h
        · cases h
        · cases hd : r.member place d s with
          | error e =>
            rw [hd] at h
            cases h
          | ok s₁ =>
            rw [hd] at h
            exact ih (hmember place d s s₁ hs hd) h

/-- What each member that is read keeps holds when the record is complete. -/
theorem exists_finish_of_read (hstart : P r.start) {d : Draft} (h : r.read d = .ok a) :
    ∃ s, P s ∧ r.finish s = some a := by
  have hcomplete : ∀ {closed : Bool} {x : Except DecodeError σ}, (∀ s, x = .ok s → P s) →
      r.complete closed x = .ok a → ∃ s, P s ∧ r.finish s = some a := by
    intro closed x hx hcomplete
    cases x with
    | error e => cases hcomplete
    | ok s =>
      refine ⟨s, hx s rfl, ?_⟩
      cases closed with
      | false => cases hcomplete
      | true =>
        cases hfinish : r.finish s with
        | none => simp [Record.complete, hfinish] at hcomplete
        | some b =>
          simp only [Record.complete, hfinish, Except.ok.injEq] at hcomplete
          rw [hcomplete]
  rw [Record.read.eq_def] at h
  split at h
  · exact hcomplete (fun s hs => readPlaces_keeps hmember hstart hs) h
  · exact hcomplete (fun s hs => readMembers_keeps hmember hstart hs) h
  · cases h

end Invariants

/-- A pair of values is read in the order of its members. -/
theorem pairRecord_read {name₁ name₂ : String} (hne : name₁ ≠ name₂) (read₁ : Decoder α)
    (read₂ : Decoder β) (d₁ d₂ : Draft) :
    (pairRecord name₁ name₂ read₁ read₂).read (.obj [(some name₁, d₁), (some name₂, d₂)] true) =
      (read₁ d₁).bind fun a => (read₂ d₂).map fun b => (a, b) := by
  have hname₁ : [name₁, name₂].idxOf? name₁ = some 0 := by simp [List.idxOf?, List.findIdx?_cons]
  have hname₂ : [name₁, name₂].idxOf? name₂ = some 1 := by
    simp [List.idxOf?, List.findIdx?_cons, hne]
  rw [Record.read, Record.readMembers]
  simp only [pairRecord, hname₁]
  cases read₁ d₁ with
  | error e => rfl
  | ok a =>
    simp only [Record.readMembers, hname₂]
    cases read₂ d₂ <;> rfl

/-- What is read as a pair qualifies member by member. -/
theorem pairRecord_checked {read₁ : Decoder α} {read₂ : Decoder β} {good₁ : α → Prop}
    {good₂ : β → Prop} (h₁ : ∀ d a, read₁ d = .ok a → good₁ a)
    (h₂ : ∀ d b, read₂ d = .ok b → good₂ b) {name₁ name₂ : String} {d : Draft} {p : α × β}
    (hread : (pairRecord name₁ name₂ read₁ read₂).read d = .ok p) : good₁ p.1 ∧ good₂ p.2 := by
  let P (s : PairParts α β) : Prop :=
    (∀ a, s.first = some a → good₁ a) ∧ ∀ b, s.second = some b → good₂ b
  have hmember : ∀ place d s s', P s →
      (pairRecord name₁ name₂ read₁ read₂).member place d s = .ok s' → P s' := by
    intro place d s s' hs hd
    cases place with
    | zero =>
      obtain ⟨a, ha, rfl⟩ := exists_of_map_eq_ok hd
      exact ⟨fun a' ha' => Option.some.inj ha' ▸ h₁ _ _ ha, hs.2⟩
    | succ place =>
      obtain ⟨b, hb, rfl⟩ := exists_of_map_eq_ok hd
      exact ⟨hs.1, fun b' hb' => Option.some.inj hb' ▸ h₂ _ _ hb⟩
  obtain ⟨s, hs, hfinish⟩ := exists_finish_of_read hmember (by simp [P, pairRecord]) hread
  obtain ⟨first, second⟩ := s
  cases first with
  | none => cases hfinish
  | some a =>
    cases second with
    | none => cases hfinish
    | some b =>
      cases hfinish
      exact ⟨hs.1 a rfl, hs.2 b rfl⟩

theorem Codec.pair {read₂ : Decoder β} {write₂ : β → Json} {good₂ : β → Prop}
    (h : Codec read write good) (h₂ : Codec read₂ write₂ good₂) {name₁ name₂ : String}
    (hne : name₁ ≠ name₂) :
    Codec (pairRecord name₁ name₂ read read₂).read
      (fun p => .obj [(name₁, write p.1), (name₂, write₂ p.2)])
      (fun p => good p.1 ∧ good₂ p.2) where
  inRange hp := .obj (by simp [h.inRange hp.1, h₂.inRange hp.2])
  back {p} hp := by
    rw [reading, memberReadings, memberReadings, memberReadings, pairRecord_read hne, h.back hp.1,
      h₂.back hp.2]
    rfl
  checked hread := pairRecord_checked (fun _ _ => h.checked) (fun _ _ => h₂.checked) hread

theorem Codec.single (h : Codec read write good) (name : String) :
    Codec (Record.single name read).read (fun a => .obj [(name, write a)]) good where
  inRange ha := .obj (by simp [h.inRange ha])
  back {a} ha := by
    have hname : (Record.single name read).names.idxOf? name = some 0 := by
      simp [Record.single, List.idxOf?, List.findIdx?_cons]
    have hmember : (Record.single name read).member 0 (write a).reading
        (Record.single name read).start = .ok (some a) := by
      simp only [Record.single, h.back ha]
      rfl
    rw [reading, memberReadings, memberReadings, Record.read,
      readMembers_cons hname (by simp) hmember]
    rfl
  checked {d a} hread := by
    have hmember : ∀ (place : ℕ) (d : Draft) (s s' : Option α), (∀ a, s = some a → good a) →
        (Record.single name read).member place d s = .ok s' → ∀ a, s' = some a → good a := by
      intro place d s s' _ hd a' ha'
      obtain ⟨b, hb, rfl⟩ := exists_of_map_eq_ok hd
      exact Option.some.inj ha' ▸ h.checked hb
    obtain ⟨s, hs, hfinish⟩ := exists_finish_of_read hmember (by simp [Record.single]) hread
    exact hs a hfinish

theorem Codec.option (h : Codec read write good)
    (hnull : ∀ a, good a → (write a).reading ≠ .null) :
    Codec (readOption read) (Json.option write) (fun o => ∀ a ∈ o, good a) where
  inRange {o} ho := by
    cases o with
    | none => exact .null
    | some a => exact h.inRange (ho a rfl)
  back {o} ho := by
    cases o with
    | none => rfl
    | some a =>
      rw [Json.option, readOption, h.back (ho a rfl)]
      · rfl
      · exact hnull a (ho a rfl)
  checked {d o} hread := by
    rw [readOption.eq_def] at hread
    split at hread
    · cases hread
      simp
    · obtain ⟨a, hd, rfl⟩ := exists_of_map_eq_ok hread
      simpa using h.checked hd

end Records

section Messages

def ValidJob (j : Job) : Prop := Apart j.position ∧ j.level ≤ 255

/-- An evaluation that the checks pass on as it is. -/
def ValidEvaluation (e : Evaluation) : Prop := Apart e.position ∧ e.validate = .ok e

instance (e : Evaluation) : Decidable (ValidEvaluation e) :=
  inferInstanceAs (Decidable (_ ∧ _ = _))

theorem validEvaluation_of_valid {e : Evaluation} (h : e.Valid) : ValidEvaluation e :=
  ⟨e.position.disjoint, (e.validate_eq_ok_iff).2 ⟨h, rfl⟩⟩

theorem ValidEvaluation.valid {e : Evaluation} (h : ValidEvaluation e) : e.Valid :=
  (e.validate_eq_ok_iff.1 h.2).1

theorem codec_readJob : Codec readJob ofJob ValidJob := by
  have hne : "position" ≠ "level" := by simp
  exact (codec_readPosition.pair codec_readByte hne).map (fun p => Job.mk p.1 p.2)
    (fun j : Job => (j.position, j.level)) (fun d => by rw [readJob]) (fun j => by rw [ofJob])
    (fun _ => rfl) (fun _ h => h) fun _ h => h

theorem codec_readOption_readJob :
    Codec (readOption readJob) (Json.option ofJob) fun o => ∀ j ∈ o, ValidJob j :=
  codec_readJob.option fun j _ hnull => by
    rw [ofJob, reading] at hnull
    cases hnull

theorem codec_readJobOffer : Codec readJobOffer ofJobOffer fun o => ∀ j ∈ o, ValidJob j where
  inRange ho := .obj (by simpa using codec_readOption_readJob.inRange ho)
  back {o} ho := by
    have hmember : jobOfferRecord.member 0 (Json.option ofJob o).reading jobOfferRecord.start =
        .ok (some o) := by
      simp only [jobOfferRecord, codec_readOption_readJob.back ho]
      rfl
    have hname : jobOfferRecord.names.idxOf? "job" = some 0 := by rfl
    rw [readJobOffer, ofJobOffer, reading, memberReadings, memberReadings, Record.read,
      readMembers_cons hname (by simp) hmember]
    rfl
  checked {d o} hread := by
    have hmember : ∀ (place : ℕ) (d : Draft) (s s' : Option (Option Job)),
        (∀ o, s = some o → ∀ j ∈ o, ValidJob j) → jobOfferRecord.member place d s = .ok s' →
        ∀ o, s' = some o → ∀ j ∈ o, ValidJob j := by
      intro place d s s' _ hd o ho
      obtain ⟨o', ho', rfl⟩ := exists_of_map_eq_ok hd
      cases ho
      exact codec_readOption_readJob.checked ho'
    obtain ⟨s, hs, hfinish⟩ := exists_finish_of_read hmember (by simp [jobOfferRecord]) hread
    obtain rfl : s.join = o := Option.some.inj hfinish
    cases s with
    | none => simp
    | some o => exact hs o rfl

/-- The numbers of an evaluation fit the bytes as which they are read. -/
structure InBytes (e : Evaluation) : Prop where
  level_le : e.level ≤ 255
  depth_le : e.depth ≤ 255
  score_mem : -128 ≤ e.score ∧ e.score ≤ 127

theorem ValidEvaluation.inBytes {e : Evaluation} (h : ValidEvaluation e) : InBytes e where
  level_le := h.valid.level_le.trans (by decide)
  depth_le := h.valid.depth_le.trans (by decide)
  score_mem := ⟨le_trans (by decide) h.valid.le_score, h.valid.score_le.trans (by decide)⟩

theorem InBytes.inRange {e : Evaluation} (h : InBytes e) : (ofEvaluation e).InRange := by
  refine .obj (List.forall_mem_cons.2 ⟨codec_readPosition.inRange e.position.disjoint, ?_⟩)
  refine List.forall_mem_cons.2 ⟨codec_readByte.inRange h.level_le, ?_⟩
  refine List.forall_mem_cons.2 ⟨codec_readByte.inRange h.depth_le, ?_⟩
  refine List.forall_mem_cons.2 ⟨codec_readConfidence.inRange trivial, ?_⟩
  refine List.forall_mem_cons.2 ⟨codec_readSignedByte.inRange h.score_mem, ?_⟩
  exact List.forall_mem_singleton.2 (codec_readMove.list.inRange fun _ _ => trivial)

/-- The members of an evaluation are read in the order in which they are written, whatever the
checks will say. -/
theorem InBytes.evaluationRecord_read {e : Evaluation} (h : InBytes e) :
    evaluationRecord.read (ofEvaluation e).reading = .ok e := by
  have hposition := codec_readPosition.back e.position.disjoint
  have hlevel : readByte (Json.nat e.level).reading = .ok e.level := codec_readByte.back h.level_le
  have hdepth : readByte (Json.nat e.depth).reading = .ok e.depth := codec_readByte.back h.depth_le
  have hconfidence : readConfidence (ofConfidence e.confidence).reading = .ok e.confidence :=
    codec_readConfidence.back trivial
  have hscore : readSignedByte (Json.int e.score).reading = .ok e.score :=
    codec_readSignedByte.back h.score_mem
  have hmoves := codec_readMove.list.back fun m (_ : m ∈ e.bestMoves) => trivial
  simp only [reading] at hscore hmoves
  simp [ofEvaluation, reading, memberReadings, Record.read, Record.readMembers, Record.complete,
    evaluationRecord, List.idxOf?, List.findIdx?_cons, Except.map, hposition, hlevel, hdepth,
    hconfidence, hscore, hmoves]

theorem InBytes.readEvaluation_reading {e : Evaluation} (h : InBytes e) :
    readEvaluation (ofEvaluation e).reading = refuse e.validate := by
  rw [readEvaluation, h.evaluationRecord_read]

theorem codec_readEvaluation : Codec readEvaluation ofEvaluation ValidEvaluation where
  inRange h := h.inBytes.inRange
  back h := h.inBytes.readEvaluation_reading.trans (mapError_eq_ok_iff.2 h.2)
  checked h := validEvaluation_of_valid (Evaluation.valid_of_readEvaluation h)

theorem codec_readPositions : Codec readPositions ofPositions fun ps => ∀ p ∈ ps, Apart p :=
  codec_readPosition.list.single "positions"

theorem codec_readEvaluations :
    Codec readEvaluations ofEvaluations fun es => ∀ e ∈ es, ValidEvaluation e :=
  codec_readEvaluation.list.single "evaluations"

/-- The time of a result is read as its own text is, whatever that gives. -/
theorem decodeText_ofJobResult {r : JobResult} (h : ValidEvaluation r.evaluation) :
    decodeText readJobResult (ofJobResult r).text =
      (decodeText readFloat (Json.real r.seconds).text).map fun x => ⟨r.evaluation, x⟩ := by
  have hrange : (ofJobResult r).InRange :=
    .obj (by simp [codec_readEvaluation.inRange h, InRange.real])
  have hne : "evaluation" ≠ "computation_time_seconds" := by simp
  rw [decodeText_text _ hrange, ofJobResult, readJobResult, reading, memberReadings, memberReadings,
    memberReadings, pairRecord_read hne, codec_readEvaluation.back h, decodeText_text _ (.real _)]
  cases readFloat (Json.real r.seconds).reading <;> rfl

theorem validEvaluation_of_readJobResult {d : Draft} {r : JobResult}
    (h : readJobResult d = .ok r) : ValidEvaluation r.evaluation := by
  obtain ⟨p, hp, rfl⟩ := exists_of_map_eq_ok h
  exact (pairRecord_checked (fun _ _ => codec_readEvaluation.checked) (fun _ _ _ => trivial) hp).1

/-- Of the digits of any two masks only those without a common square are read. -/
theorem isOk_decodeText_maskTexts (own opposing : Mask) :
    (decodeText readPosition (Json.str (String.ofList
      (Position.maskText own ++ Position.maskText opposing))).text).isOk = true ↔
      own &&& opposing = 0 := by
  rw [decodeText_text _ (.str _), reading, readPosition, readString]
  dsimp only
  rw [Position.parse_maskTexts, Position.ofMasks, Position.ofMasks?]
  by_cases h : own &&& opposing = 0
  · simp [h, refuse, Except.mapError, Except.isOk, Except.toBool]
  · simp [h, refuse, Except.mapError, Except.isOk, Except.toBool]

/-- Of the evaluations that can be written only those are read that the checks pass. -/
theorem InBytes.decodeText_ofEvaluation {e : Evaluation} (h : InBytes e) :
    decodeText readEvaluation (ofEvaluation e).text = refuse e.validate := by
  rw [decodeText_text _ h.inRange, h.readEvaluation_reading]

end Messages

end OthelloBook.Wire
