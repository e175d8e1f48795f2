import Mathlib.Algebra.Group.Int.Defs
import McpCli.Bridge.Wire
import McpCli.Proofs.Daemon.ToolRun

/-! What either side writes the other one reads, as far as it makes a difference. -/

namespace McpCli

open Text

namespace Json

/-- A number of 64 bits is read back. -/
theorem asU64_ofU64 {n : Nat} (fits : n < 2 ^ 64) : (ofU64 n).asU64 = some n := by
  simp only [asU64, ofU64, String.toList_ofList]
  exact parseUsize_decimal fits

/-- The digits of a number do not begin with a sign. -/
theorem head_decimal_ne (n : Nat) (rest : List Char) : decimal n ≠ '-' :: rest := by
  intro same
  have digit := isDigit_of_mem_decimal (same ▸ List.mem_cons_self : '-' ∈ decimal n)
  cases digit

/-- So is a number of 32 bits with its sign. -/
theorem asI32_ofI32 {n : Int} (low : -2 ^ 31 ≤ n) (high : n < 2 ^ 31) :
    (ofI32 n).asI32 = some n := by
  have fits : n.natAbs < 2 ^ 64 := by omega
  simp only [asI32, ofI32, String.toList_ofList]
  by_cases negative : n < 0
  · rw [if_pos negative]
    -- There is one number more below zero than above.
    have range : 0 < n.natAbs ∧ n.natAbs ≤ 2 ^ 31 := by omega
    have value : -(n.natAbs : Int) = n := by omega
    simp only [parseUsize_decimal fits, Option.bind_some, if_pos range, value]
  · rw [if_neg negative]
    have range : n.natAbs < 2 ^ 31 := by omega
    have value : (n.natAbs : Int) = n := by omega
    split
    · rename_i digits same
      -- What is read as the sign of a number would be its first digit.
      exact absurd same (head_decimal_ne _ _)
    · simp only [parseUsize_decimal fits, Option.bind_some, if_pos range, value]

/-- Such a number looks like one. -/
theorem ofI32_formed (n : Int) : (ofI32 n).Formed := by
  rw [ofI32]
  -- A negative one has a sign in front of its digits.
  by_cases negative : n < 0
  · rw [if_pos negative, Formed, String.toList_ofList]
    refine ⟨⟨'-', rfl, .inr rfl⟩, ?_⟩
    intro c member
    rcases List.mem_cons.mp member with rfl | digit
    · rfl
    · rw [isNumeric, isDigit_of_mem_decimal digit]
      rfl
  · rw [if_neg negative]
    exact decimal_formed _

/-- What is found under a key of some members is sound if they are. -/
theorem find_sound {reader : JsonReader} {levels : Nat} {members : List (String × Json)}
    (sound : SoundMembers reader levels members) {key : String} {entry : String × Json}
    (found : members.find? (fun entry => entry.1 = key) = some entry) :
    entry.2.Sound reader levels := by
  induction members with
  | nil => cases found
  | cons first rest ih =>
    obtain ⟨name, value⟩ := first
    rw [List.find?_cons] at found
    split at found
    · cases found
      exact sound.1
    · -- The first member has another name.
      exact ih sound.2 found

/-- A member of a value is as sound as the value, one level below it. -/
theorem Sound.get {reader : JsonReader} {levels : Nat} {value member : Json}
    (sound : value.Sound reader levels) {key : String} (there : value.get key = some member) :
    member.Sound reader (levels - 1) := by
  -- Only an object has members.
  cases value with
  | object members =>
    obtain ⟨-, -, inside⟩ := sound
    simp only [Json.get, Option.map_eq_some_iff] at there
    obtain ⟨entry, found, rfl⟩ := there
    exact find_sound inside found
  | _ => cases there

mutual

/-- With more levels, there are more sound values. -/
theorem Sound.mono {reader : JsonReader} : ∀ {value : Json} {levels more : Nat}, levels ≤ more →
    value.Sound reader levels → value.Sound reader more
  | .null, _, _, _, _ | .bool _, _, _, _, _ | .string _, _, _, _, _ => trivial
  | .number _, _, _, _, sound => sound
  | .array _, _, _, le, sound => ⟨Nat.lt_of_lt_of_le sound.1 le,
      SoundItems.mono (Nat.sub_le_sub_right le 1) sound.2⟩
  | .object _, _, _, le, sound => ⟨Nat.lt_of_lt_of_le sound.1 le, sound.2.1,
      SoundMembers.mono (Nat.sub_le_sub_right le 1) sound.2.2⟩

/-- And more sound items. -/
theorem SoundItems.mono {reader : JsonReader} : ∀ {items : List Json} {levels more : Nat},
    levels ≤ more → SoundItems reader levels items → SoundItems reader more items
  | [], _, _, _, _ => trivial
  | _ :: _, _, _, le, sound => ⟨sound.1.mono le, SoundItems.mono le sound.2⟩

/-- And more sound members. -/
theorem SoundMembers.mono {reader : JsonReader} : ∀ {members : List (String × Json)}
    {levels more : Nat}, levels ≤ more → SoundMembers reader levels members →
      SoundMembers reader more members
  | [], _, _, _, _ => trivial
  | (_, _) :: _, _, _, le, sound => ⟨sound.1.mono le, SoundMembers.mono le sound.2⟩

end

end Json

section
variable {reader : JsonReader} (reads : reader.Reads)
include reads

/-- A number of 64 bits is sound. -/
theorem Json.ofU64_sound {n : Nat} (fits : n < 2 ^ 64) (levels : Nat) :
    (Json.ofU64 n).Sound reader levels :=
  ⟨decimal_formed _, reads.whole n fits⟩

/-- So is a number of 32 bits with its sign. -/
theorem Json.ofI32_sound {n : Int} (low : -2 ^ 31 ≤ n) (high : n < 2 ^ 31) (levels : Nat) :
    (Json.ofI32 n).Sound reader levels := by
  refine ⟨Json.ofI32_formed n, ?_⟩
  by_cases negative : n < 0
  · rw [if_pos negative]
    exact reads.negative _ (by omega) (by omega)
  · rw [if_neg negative]
    exact reads.whole _ (by omega)

/-- The daemon's library reads the request that is written for some sound parameters. -/
theorem Request.fromSlice_toJson {req : Request Json} (fits : req.id < 2 ^ 64)
    (sound : req.params.Sound reader (maxNesting - 1)) :
    reader.fromSlice (encodeUtf8 req.toJson.write) = .ok req.toJson := by
  refine reads.members _ ?_ ⟨Json.ofU64_sound reads fits _, trivial, sound, trivial⟩
  simp

end

/-- A request is read back from its value. -/
theorem Request.ofJson_toJson {req : Request Json} (fits : req.id < 2 ^ 64) :
    Request.ofJson req.toJson = some req := by
  simp [Request.ofJson, Request.toJson, Json.get, Json.asU64_ofU64 fits, Json.asStr]

/-- What a method returns can be told: a sound value, or an error whose code has 32 bits. -/
def SoundOutcome (reader : JsonReader) : Except RpcError Json → Prop
  | .ok value => value.Sound reader (maxNesting - 1)
  | .error error => -2 ^ 31 ≤ error.code ∧ error.code < 2 ^ 31

/-- The response is read back, but for a result that is `null`, which is taken for none. -/
theorem Response.ofJson_toJson {reader : JsonReader} {id : Nat} (fits : id < 2 ^ 64)
    {outcome : Except RpcError Json} (sound : SoundOutcome reader outcome) :
    Response.ofJson (Response.dispatched id outcome).toJson =
      some { Response.dispatched id outcome with
        result := Json.asOption (Response.dispatched id outcome).result } := by
  cases outcome with
  | ok value =>
    simp [Response.ofJson, Response.toJson, Response.dispatched, Response.ofMembers, Json.get,
      Json.asU64_ofU64 fits, Json.asOption]
  | error error =>
    -- The member with the error has to be one in order to be read.
    have code := Json.asI32_ofI32 sound.1 sound.2
    simp [Response.ofJson, Response.toJson, Response.dispatched, Response.ofMembers, Json.get,
      Json.asU64_ofU64 fits, Json.asOption, RpcError.toJson, RpcError.ofJson, code, Json.asStr]

variable {reader : JsonReader} (reads : reader.Reads)
include reads

/-- The bridge's library reads the response that is written for such an outcome. -/
theorem Response.fromSlice_toJson {id : Nat} (fits : id < 2 ^ 64)
    {outcome : Except RpcError Json} (sound : SoundOutcome reader outcome) :
    reader.fromSlice (encodeUtf8 (Response.dispatched id outcome).toJson.write) =
      .ok (Response.dispatched id outcome).toJson := by
  have number := Json.ofU64_sound reads fits (maxNesting - 1)
  cases outcome with
  | ok value =>
    refine reads.members _ ?_ ⟨number, sound, trivial⟩
    simp [Response.dispatched]
  | error error =>
    -- The error is an object with two members, in the order of their names.
    have code := Json.ofI32_sound reads sound.1 sound.2 (maxNesting - 1 - 1)
    refine reads.members _ ?_ ⟨number, ⟨by decide, ?_, code, trivial, trivial⟩, trivial⟩
    · simp [Response.dispatched]
    · have sorted : "code" < "message" := by decide
      exact List.pairwise_pair.mpr sorted

/-- The daemon reads the request that the bridge has written. -/
theorem request_reaches {req : Request Json} (fits : req.id < 2 ^ 64)
    (sound : req.params.Sound reader (maxNesting - 1)) :
    (daemonSerde reader).fromSlice ((bridgeSerde reader).toVec req) = .ok req := by
  simp only [daemonSerde, bridgeSerde, Request.fromSlice_toJson reads fits sound,
    Request.ofJson_toJson fits]

/-- The bridge gets the outcome that the daemon has written. -/
theorem outcome_reaches {id : Nat} (fits : id < 2 ^ 64) {outcome : Except RpcError Json}
    (sound : SoundOutcome reader outcome) :
    Response.outcome (bridgeSerde reader) ((bridgeSerde reader).fromSlice
        ((daemonSerde reader).toWriter (.dispatched id outcome))) =
      outcome.mapError .daemon := by
  simp only [daemonSerde, bridgeSerde, Response.fromSlice_toJson reads fits sound,
    Response.ofJson_toJson fits sound]
  cases outcome with
  | error error => rfl
  | ok value =>
    -- No result stands for the result `null`, too.
    cases value with
    | null => rfl
    | _ => rfl

omit reads in
/-- A request is written as some bytes. -/
theorem toVec_ne_nil (req : Request Json) : (bridgeSerde reader).toVec req ≠ [] := by
  intro nothing
  simp [bridgeSerde, Request.toJson, Json.write, encodeUtf8_cons] at nothing

end McpCli
