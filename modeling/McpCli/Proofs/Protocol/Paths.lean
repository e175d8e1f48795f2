import McpCli.Protocol.Paths

/-! Which projects have one socket. -/

namespace McpCli

open Text

/-- Names in one directory are told by their paths. -/
theorem joinPath_right_inj {dir : List UInt8} {rel other : List Char}
    (relative : rel.head? ≠ some '/') (relative' : other.head? ≠ some '/') :
    joinPath dir rel = joinPath dir other ↔ rel = other := by
  refine ⟨fun same => ?_, fun same => by rw [same]⟩
  unfold joinPath at same
  rw [if_neg relative, if_neg relative'] at same
  -- Both names go on from the directory in the same way.
  split at same
  · exact encodeUtf8_inj (List.append_cancel_left same)
  · exact encodeUtf8_inj (List.cons.inj (List.append_cancel_left same)).2

/-- A path does not begin with a digit of a hash. -/
theorem head?_hashPath (path : List UInt8) (rest : List Char) :
    (hashPath path ++ rest).head? ≠ some '/' := by
  intro slash
  have digits : ∀ value < 16, hexDigit value ≠ '/' := by decide
  have length : (hashPath path).length = 16 := length_hexDigits _ _
  -- There are digits, and the first of them is one of sixteen characters.
  cases shown : hashPath path with
  | nil => simp [shown] at length
  | cons c others =>
    obtain ⟨value, small, own⟩ := mem_hexDigits (shown ▸ List.mem_cons_self : c ∈ hashPath path)
    rw [shown, List.cons_append, List.head?_cons, Option.some.injEq] at slash
    exact digits value small (own.symm.trans slash)

/-- Paths have one hash exactly if their texts have one, as a number. -/
theorem hashPath_eq_iff {path other : List UInt8} :
    hashPath path = hashPath other ↔
      Bytes.fnv1a64 (encodeUtf8 (decodeLossy path)) =
        Bytes.fnv1a64 (encodeUtf8 (decodeLossy other)) := by
  refine ⟨fun same => ?_, fun same => by rw [hashPath, same]; rfl⟩
  exact UInt64.toNat.inj (hexDigits_inj (UInt64.toNat_lt _) (UInt64.toNat_lt _) same)

/-- Projects have one socket exactly if the hashes of their paths are the same. -/
theorem socketPathForIn_eq_iff (currentUser : List Char) (runtimeDir : Option (List UInt8))
    (root other : List UInt8) :
    socketPathForIn currentUser root runtimeDir = socketPathForIn currentUser other runtimeDir ↔
      hashPath root = hashPath other := by
  -- In either case the two names are texts around the hash in one directory.
  cases runtimeDir with
  | some dir =>
    simp only [socketPathForIn]
    rw [joinPath_right_inj (head?_hashPath _ _) (head?_hashPath _ _), List.append_left_inj]
  | none =>
    have relative (rest : List Char) : ("mcp-cli-".toList ++ rest).head? ≠ some '/' := by
      intro slash
      cases slash
    simp only [socketPathForIn, List.append_assoc]
    rw [joinPath_right_inj (relative _) (relative _)]
    simp

/--
Projects have one socket exactly if the hashes of their paths as texts are the same; so they never
have if the paths are texts and differ in one byte only.
-/
theorem one_socket_iff (currentUser : List Char) (runtimeDir : Option (List UInt8))
    (root other : List UInt8) :
    (socketPathForIn currentUser root runtimeDir = socketPathForIn currentUser other runtimeDir ↔
      Bytes.fnv1a64 (encodeUtf8 (decodeLossy root)) =
        Bytes.fnv1a64 (encodeUtf8 (decodeLossy other))) ∧
    ∀ (text text' : List Char) (front back : List UInt8) (byte byte' : UInt8),
      root = encodeUtf8 text → other = encodeUtf8 text' →
      root = front ++ byte :: back → other = front ++ byte' :: back →
      (socketPathForIn currentUser root runtimeDir = socketPathForIn currentUser other runtimeDir ↔
        root = other) := by
  have sockets := (socketPathForIn_eq_iff currentUser runtimeDir root other).trans hashPath_eq_iff
  refine ⟨sockets, fun text text' front back byte byte' valid valid' bytes bytes' => ?_⟩
  -- Texts are hashed as they are.
  rw [sockets, valid, valid', decodeLossy_encodeUtf8, decodeLossy_encodeUtf8, ← valid, ← valid',
    bytes, bytes', Bytes.fnv1a64_byte_inj]
  constructor
  · intro same
    rw [same]
  · intro same
    exact (List.cons.inj (List.append_cancel_left same)).1

/-- Two projects of one user have one socket, whatever the directory is. -/
theorem one_socket_collision :
    encodeUtf8 "/3o6ojisk2knvp".toList ≠ encodeUtf8 "/zoi434iillqqp".toList ∧
      ∀ currentUser runtimeDir,
        socketPathForIn currentUser (encodeUtf8 "/3o6ojisk2knvp".toList) runtimeDir =
          socketPathForIn currentUser (encodeUtf8 "/zoi434iillqqp".toList) runtimeDir := by
  refine ⟨by decide, fun currentUser runtimeDir => ?_⟩
  -- Only the two hashes are left to be evaluated.
  rw [socketPathForIn_eq_iff, hashPath_eq_iff, decodeLossy_encodeUtf8, decodeLossy_encodeUtf8]
  decide

/-- Two projects whose names differ in their first letter have two sockets. -/
theorem one_socket_iff_letter :
    socketPathForIn "me".toList (encodeUtf8 "/p/foo".toList) none ≠
      socketPathForIn "me".toList (encodeUtf8 "/p/boo".toList) none := by
  intro same
  have roots := ((one_socket_iff _ _ _ _).2 "/p/foo".toList "/p/boo".toList [0x2F, 0x70, 0x2F]
    [0x6F, 0x6F] 0x66 0x62 rfl rfl (by decide) (by decide)).mp same
  exact absurd roots (by decide)

end McpCli
