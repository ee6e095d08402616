import FrameworkBenchmarks.H2o.UpdateStatements

/-!
# The context block of updates

`do_multiple_queries` allocates one block for the context of a request, and `do_updates` carves the parameters
of the update and its command out of what lies behind the results. Both compute the places by rounding up.
Sizes are taken not to overflow, as the source assumes.
-/

namespace FrameworkBenchmarks.H2o

/-! ### Types -/

/-- Size and alignment of a type. -/
structure CType where
  size : ℕ
  align : ℕ
  power : ∃ k, align = 2 ^ k
  whole : align ∣ size

theorem CType.align_pos (type : CType) : 0 < type.align := by
  obtain ⟨k, hk⟩ := type.power
  rw [hk]
  exact Nat.two_pow_pos k

/-- The types in the context block, and the offset of `res` in `multiple_query_ctx_t`. -/
structure Platform where
  resOffset : ℕ
  queryResult : CType
  queryParam : CType
  pointer : CType
  int : CType

/-- `((s + a - 1) / a) * a` -/
def roundUp (s a : ℕ) : ℕ := (s + a - 1) / a * a

variable (platform : Platform)

/-! ### The allocation of `do_multiple_queries` -/

def baseSize (numQuery : ℕ) : ℕ :=
  roundUp (platform.resOffset + numQuery * platform.queryResult.size) platform.queryParam.align

def SIZE_MAX : ℕ := 2 ^ 64 - 1

def numQueryInProgress (maxDbConnNum maxPipelineQueryNum numQuery : ℕ) : ℕ :=
  let product := maxDbConnNum * maxPipelineQueryNum % (SIZE_MAX + 1)
  if product < maxDbConnNum ∨ product < maxPipelineQueryNum then numQuery else min numQuery product

/-- `sz` of `do_multiple_queries` -/
def blockSize (maxQueries maxDbConnNum maxPipelineQueryNum numQuery : ℕ) (doUpdate : Bool) : ℕ :=
  let sz := baseSize platform numQuery +
    numQueryInProgress maxDbConnNum maxPipelineQueryNum numQuery * platform.queryParam.size
  if doUpdate then
    let s := baseSize platform numQuery + platform.queryParam.size
    let s := roundUp s platform.pointer.align + 2 * numQuery * platform.pointer.size
    let s := roundUp s platform.int.align + 4 * numQuery * platform.int.size
    let s := s + sizeofName maxQueries
    if s > sz then s else sz
  else sz

/-! ### The regions of `do_updates` -/

/-- Some bytes of the block. -/
structure Region where
  offset : ℕ
  size : ℕ

def Region.stop (region : Region) : ℕ := region.offset + region.size

def results (numResult : ℕ) : Region := ⟨platform.resOffset, numResult * platform.queryResult.size⟩

/-- `query_ctx->query_param`, as `do_multiple_queries` has set it. -/
def queryParam (numQuery : ℕ) : Region := ⟨baseSize platform numQuery, platform.queryParam.size⟩

def paramValues (numResult : ℕ) : Region where
  offset := roundUp (roundUp (platform.resOffset + numResult * platform.queryResult.size) platform.queryParam.align +
    platform.queryParam.size) platform.pointer.align
  size := numResult * 2 * platform.pointer.size

def paramFormats (numResult : ℕ) : Region where
  offset := roundUp ((paramValues platform numResult).offset + numResult * 2 * platform.pointer.size) platform.int.align
  size := numResult * 2 * platform.int.size

def paramLengths (numResult : ℕ) : Region where
  offset := (paramFormats platform numResult).offset + numResult * 2 * platform.int.size
  size := numResult * 2 * platform.int.size

/-- The prefix, and the room that `snprintf` is given behind it. -/
def command (maxQueries numResult : ℕ) : Region where
  offset := (paramLengths platform numResult).offset + numResult * 2 * platform.int.size
  size := sizeof UPDATE_QUERY_NAME_PREFIX - 1 + (sizeofName maxQueries - sizeof UPDATE_QUERY_NAME_PREFIX + 1)

/-- The regions of `do_updates` behind the results, in the order of their places. -/
def updateRegions (maxQueries numQuery : ℕ) : List Region :=
  [results platform numQuery, queryParam platform numQuery, paramValues platform numQuery,
    paramFormats platform numQuery, paramLengths platform numQuery, command platform maxQueries numQuery]

/-! ### Places -/

theorem le_roundUp {a : ℕ} (ha : 0 < a) (s : ℕ) : s ≤ roundUp s a := by
  have hdivision := Nat.div_add_mod (s + a - 1) a
  have hrest := Nat.mod_lt (s + a - 1) ha
  rw [Nat.mul_comm] at hdivision
  unfold roundUp
  omega

theorem dvd_roundUp (s a : ℕ) : a ∣ roundUp s a := Nat.dvd_mul_left a _

/-- The first region ends before the second one starts. -/
def Region.Before (first second : Region) : Prop := first.stop ≤ second.offset

instance : Trans Region.Before Region.Before Region.Before where
  trans {first second third} h h' := by
    have hsecond : second.offset ≤ second.stop := Nat.le_add_right _ _
    exact Nat.le_trans h (Nat.le_trans hsecond h')

theorem updateRegions_chain (maxQueries numQuery : ℕ) :
    (updateRegions platform maxQueries numQuery).IsChain Region.Before := by
  have hparam : (results platform numQuery).Before (queryParam platform numQuery) :=
    le_roundUp platform.queryParam.align_pos _
  have hvalues : (queryParam platform numQuery).Before (paramValues platform numQuery) :=
    le_roundUp platform.pointer.align_pos _
  have hformats : (paramValues platform numQuery).Before (paramFormats platform numQuery) :=
    le_roundUp platform.int.align_pos _
  have hlengths : (paramFormats platform numQuery).Before (paramLengths platform numQuery) := Nat.le_refl _
  have hcommand : (paramLengths platform numQuery).Before (command platform maxQueries numQuery) := Nat.le_refl _
  exact .cons_cons hparam (.cons_cons hvalues (.cons_cons hformats (.cons_cons hlengths (.cons_cons hcommand
    (.singleton _)))))

/-- The last region ends with the part of the block that is allocated for updates. -/
theorem command_stop_le (maxQueries maxDbConnNum maxPipelineQueryNum numQuery : ℕ) :
    (command platform maxQueries numQuery).stop ≤
      blockSize platform maxQueries maxDbConnNum maxPipelineQueryNum numQuery true := by
  have hname : sizeof UPDATE_QUERY_NAME_PREFIX ≤ sizeofName maxQueries := by
    unfold sizeofName sizeof
    rw [List.length_append]
    omega
  have hstop : (command platform maxQueries numQuery).stop =
      roundUp (roundUp (baseSize platform numQuery + platform.queryParam.size) platform.pointer.align +
        2 * numQuery * platform.pointer.size) platform.int.align + 4 * numQuery * platform.int.size +
          sizeofName maxQueries := by
    have hints : 4 * numQuery * platform.int.size = numQuery * 2 * platform.int.size + numQuery * 2 * platform.int.size := by
      rw [← Nat.add_mul]
      congr 1
      omega
    simp only [Region.stop, command, paramLengths, paramFormats, paramValues, baseSize, Nat.mul_comm numQuery 2] at hints ⊢
    rw [hints]
    unfold sizeof at hname ⊢
    omega
  rw [hstop, blockSize, if_pos rfl]
  dsimp only
  split <;> omega

/-- A block, whose address is aligned for the types in it. -/
structure Block where
  address : ℕ
  aligned : ∀ type ∈ [platform.queryParam, platform.pointer, platform.int], type.align ∣ address

end FrameworkBenchmarks.H2o
