import MockServices.Foundations.LevelPattern
import MockServices.Foundations.SegmentPath
import MockServices.Mqtt.Codec

/-!
# Topic matching, level by level

The loop of `topic_matches` keeps one index into the segments of the
filter and one into those of the topic. What it decides from a pair of
indices depends on the segments that are left alone, and for these it
decides the level-wise relation of the protocol.
-/

namespace MockServices.Mqtt

open Foundations

/-- The levels of a filter or a topic, the empty ones among them. -/
def levels (topic : Bytes) : List Bytes := topic.splitOn slash

/-- The loop of `topic_matches` and the condition it ends with. -/
def matchLoop (filterSegments topicSegments : List Bytes) (filterIndex topicIndex : ℕ) : Bool :=
  if h : filterIndex < filterSegments.length ∧ topicIndex < topicSegments.length then
    if filterSegments[filterIndex] = multiLevel then true
    else if filterSegments[filterIndex] = singleLevel then
      matchLoop filterSegments topicSegments (filterIndex + 1) (topicIndex + 1)
    else if filterSegments[filterIndex] ≠ topicSegments[topicIndex] then false
    else matchLoop filterSegments topicSegments (filterIndex + 1) (topicIndex + 1)
  else
    (filterIndex = filterSegments.length ∧ topicIndex = topicSegments.length) ∨
      filterSegments[filterIndex]? = some multiLevel
termination_by filterSegments.length - filterIndex

/-- The scan that precedes the loop. -/
def misplacedMultiLevel (filterSegments : List Bytes) : Bool :=
  (List.range filterSegments.length).any fun filterIndex =>
    filterSegments[filterIndex]? = some multiLevel ∧ filterIndex ≠ filterSegments.length - 1

def topicMatchesByIndex (filter topic : Bytes) : Bool :=
  if misplacedMultiLevel (splitTopic filter) then false
  else matchLoop (splitTopic filter) (splitTopic topic) 0 0

theorem splitTopicFrom_eq (currentSegment topic : Bytes) :
    splitTopicFrom currentSegment topic = (levels topic).modifyHead (currentSegment ++ ·) := by
  induction topic generalizing currentSegment with
  | nil => simp [splitTopicFrom, levels]
  | cons character topic ih =>
      rw [splitTopicFrom, levels, List.splitOn_cons_eq_if_modifyHead]
      by_cases h : character = slash
      · rw [if_pos h, ih, if_pos (beq_iff_eq.mpr h), ← levels]
        cases levels topic <;> simp
      · rw [if_neg h, ih, if_neg (mt beq_iff_eq.mp h), ← levels, List.modifyHead_modifyHead]
        simp [Function.comp_def]

theorem splitTopic_eq_levels (topic : Bytes) : splitTopic topic = levels topic := by
  rw [splitTopic, splitTopicFrom_eq]
  cases levels topic <;> simp

theorem misplacedMultiLevel_iff (filterSegments : List Bytes) :
    misplacedMultiLevel filterSegments = true ↔ multiLevel ∈ filterSegments.dropLast := by
  simp only [misplacedMultiLevel, List.any_eq_true, List.mem_range, decide_eq_true_eq]
  rw [List.mem_iff_getElem?]
  simp only [List.getElem?_dropLast]
  constructor
  · rintro ⟨index, hlt, hsome, hlast⟩
    refine ⟨index, ?_⟩
    rw [if_pos (by omega), hsome]
  · rintro ⟨index, hsome⟩
    split at hsome
    · exact ⟨index, by omega, hsome, by omega⟩
    · cases hsome

/-- The loop looks at nothing but the segments from its indices on. -/
theorem matchLoop_eq (filterSegments topicSegments : List Bytes) (filterIndex topicIndex : ℕ)
    (hfilter : filterIndex ≤ filterSegments.length) (htopic : topicIndex ≤ topicSegments.length) :
    matchLoop filterSegments topicSegments filterIndex topicIndex =
      matchSegments (filterSegments.drop filterIndex) (topicSegments.drop topicIndex) := by
  induction filterIndex, topicIndex using matchLoop.induct filterSegments topicSegments with
  | case1 i j h hmulti =>
      rw [matchLoop, dif_pos h, if_pos hmulti, List.drop_eq_getElem_cons h.1,
        List.drop_eq_getElem_cons h.2, matchSegments, if_pos hmulti]
  | case2 i j h hmulti hsingle ih =>
      rw [matchLoop, dif_pos h, if_neg hmulti, if_pos hsingle, ih (by omega) (by omega),
        List.drop_eq_getElem_cons h.1, List.drop_eq_getElem_cons h.2, matchSegments, if_neg hmulti,
        if_pos hsingle]
  | case3 i j h hmulti hsingle hne =>
      rw [matchLoop, dif_pos h, if_neg hmulti, if_neg hsingle, if_pos hne,
        List.drop_eq_getElem_cons h.1, List.drop_eq_getElem_cons h.2, matchSegments, if_neg hmulti,
        if_neg hsingle, if_pos hne]
  | case4 i j h hmulti hsingle heq ih =>
      rw [matchLoop, dif_pos h, if_neg hmulti, if_neg hsingle, if_neg heq,
        ih (by omega) (by omega), List.drop_eq_getElem_cons h.1, List.drop_eq_getElem_cons h.2,
        matchSegments, if_neg hmulti, if_neg hsingle, if_neg heq]
  | case5 i j h =>
      rw [matchLoop, dif_neg h]
      by_cases hend : i = filterSegments.length
      · subst hend
        rw [List.drop_length]
        by_cases hover : j = topicSegments.length
        · simp [hover, matchSegments]
        · rw [List.drop_eq_getElem_cons (by omega), matchSegments]
          simp [hover]
      · have hj : j = topicSegments.length := by omega
        subst hj
        rw [List.drop_length, List.drop_eq_getElem_cons (by omega), matchSegments,
          List.getElem?_eq_getElem (by omega)]
        simp [hend]

theorem topicMatchesByIndex_eq (filter topic : Bytes) :
    topicMatchesByIndex filter topic = topicMatches filter topic := by
  rw [topicMatchesByIndex, topicMatches, matchLoop_eq _ _ _ _ (Nat.zero_le _) (Nat.zero_le _),
    List.drop_zero, List.drop_zero]
  simp only [misplacedMultiLevel_iff]

theorem single_ne_multi : singleLevel ≠ multiLevel := by decide

/-- Once a wildcard for the rest can stand at the end alone, the cases of
the code are those of the relation. -/
theorem matchSegments_iff {filterLevels topicLevels : List Bytes}
    (hplaced : multiLevel ∉ filterLevels.dropLast) :
    matchSegments filterLevels topicLevels = true ↔
      LevelMatches singleLevel multiLevel filterLevels topicLevels := by
  induction filterLevels generalizing topicLevels with
  | nil =>
      rw [LevelMatches.nil_left_iff]
      cases topicLevels <;> simp [matchSegments]
  | cons segment filterLevels ih =>
      have hrest : multiLevel ∉ filterLevels.dropLast := by
        cases filterLevels with
        | nil => exact List.not_mem_nil
        | cons next filterLevels =>
            exact fun h => hplaced (List.mem_cons_of_mem segment h)
      have halone : segment = multiLevel → filterLevels = [] := by
        rintro rfl
        cases filterLevels with
        | nil => rfl
        | cons next filterLevels => exact (hplaced List.mem_cons_self).elim
      cases topicLevels with
      | nil =>
          rw [LevelMatches.nil_right_iff, matchSegments, decide_eq_true_eq]
          exact ⟨fun h => ⟨h, halone h⟩, And.left⟩
      | cons level topicLevels =>
          rw [matchSegments]
          by_cases hmulti : segment = multiLevel
          · subst hmulti
            rw [if_pos rfl, LevelMatches.multi_iff single_ne_multi]
            exact iff_of_true rfl (halone rfl)
          · rw [if_neg hmulti]
            by_cases hsingle : segment = singleLevel
            · subst hsingle
              rw [if_pos rfl, ih hrest, LevelMatches.single_iff single_ne_multi]
            · rw [if_neg hsingle, LevelMatches.literal_iff hsingle hmulti, ← ih hrest]
              by_cases heq : segment = level <;> simp [heq]

theorem topicMatches_iff_relation (filter topic : Bytes) :
    topicMatches filter topic = true ↔
      LevelMatches singleLevel multiLevel (levels filter) (levels topic) := by
  rw [topicMatches, splitTopic_eq_levels, splitTopic_eq_levels]
  split
  · next hmisplaced =>
      refine iff_of_false Bool.false_ne_true fun h => ?_
      exact h.multi_last single_ne_multi hmisplaced
  · next hplaced => exact matchSegments_iff hplaced

theorem intercalate_levels (topic : Bytes) : [slash].intercalate (levels topic) = topic :=
  List.intercalate_splitOn slash

theorem levels_injective : Function.Injective levels := by
  intro topic other h
  rw [← intercalate_levels topic, h, intercalate_levels]

/-- A filter without wildcards matches the topic that it is. -/
theorem topicMatches_literal {filter : Bytes}
    (hliteral : ∀ level ∈ levels filter, level ≠ singleLevel ∧ level ≠ multiLevel)
    (topic : Bytes) : topicMatches filter topic = true ↔ topic = filter := by
  rw [topicMatches_iff_relation, LevelMatches.iff_eq_of_literal hliteral]
  exact levels_injective.eq_iff

/-- `topic_matches`, the scan and the loop over the indices, decides the
level-wise relation. -/
theorem topicMatches_correct (filter topic : Bytes) :
    (topicMatchesByIndex filter topic = true ↔
      LevelMatches singleLevel multiLevel (levels filter) (levels topic)) ∧
    topicMatches filter topic = topicMatchesByIndex filter topic ∧
    [slash].intercalate (levels topic) = topic ∧ (∀ level ∈ levels topic, slash ∉ level) ∧
    ((∀ level ∈ levels filter, level ≠ singleLevel ∧ level ≠ multiLevel) →
      (topicMatchesByIndex filter topic = true ↔ topic = filter)) := by
  rw [topicMatchesByIndex_eq]
  refine ⟨topicMatches_iff_relation filter topic, rfl, intercalate_levels topic, ?_, ?_⟩
  · intro level hlevel
    exact SegmentPath.sep_notMem_of_mem_splitOn hlevel
  · intro hliteral
    exact topicMatches_literal hliteral topic

end MockServices.Mqtt
