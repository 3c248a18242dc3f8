import Mathlib.Data.List.Infix
import Mathlib.Tactic.SplitIfs

/-!
# Paths as lists of segments

A path text is split at a separator; each segment stays (the empty one
and `.`), goes up (`..`) or goes down into a name. A walk follows these
moves on a stack of names. Every list of moves has a normal form, a
number of levels to climb followed by names to descend, and the walk
from any stack is determined by it. The last section compares prefixes
of path texts with prefixes of their segment lists.
-/

namespace MockServices.Foundations.SegmentPath

variable {α : Type*}

inductive Move (α : Type*) where
  | stay
  | up
  | down (name : List α)
  deriving DecidableEq

/-- A segment that names an entry: not empty, not `.`, not `..`, no separator. -/
structure IsName (sep dot : α) (seg : List α) : Prop where
  ne_nil : seg ≠ []
  ne_dot : seg ≠ [dot]
  ne_dotdot : seg ≠ [dot, dot]
  sep_notMem : sep ∉ seg

instance [DecidableEq α] (sep dot : α) (seg : List α) : Decidable (IsName sep dot seg) :=
  decidable_of_iff (seg ≠ [] ∧ seg ≠ [dot] ∧ seg ≠ [dot, dot] ∧ sep ∉ seg)
    ⟨fun h => ⟨h.1, h.2.1, h.2.2.1, h.2.2.2⟩, fun h => ⟨h.1, h.2, h.3, h.4⟩⟩

/-- The text of the absolute path with the given segments. -/
def absolute (sep : α) (segs : List (List α)) : List α := sep :: [sep].intercalate segs

@[simp] theorem absolute_ne_nil (sep : α) (segs : List (List α)) : absolute sep segs ≠ [] := by
  simp [absolute]

/-- An absolute path in normal form. -/
structure NormalPath (sep dot : α) where
  names : List (List α)
  isName : ∀ n ∈ names, IsName sep dot n

def NormalPath.text {sep dot : α} (p : NormalPath sep dot) : List α := absolute sep p.names

/-- Follow the moves; going up from the empty stack fails. -/
def walk : List (List α) → List (Move α) → Option (List (List α))
  | stack, [] => some stack
  | stack, .stay :: ms => walk stack ms
  | stack, .up :: ms => if stack = [] then none else walk stack.dropLast ms
  | stack, .down n :: ms => walk (stack ++ [n]) ms

theorem walk_append (stack : List (List α)) (ms ns : List (Move α)) :
    walk stack (ms ++ ns) = (walk stack ms).bind fun t => walk t ns := by
  induction ms generalizing stack with
  | nil => rfl
  | cons m ms ih =>
      cases m with
      | stay => exact ih stack
      | up =>
          by_cases hs : stack = []
          · simp [walk, hs]
          · simpa [walk, hs] using ih stack.dropLast
      | down n => exact ih (stack ++ [n])

@[simp] theorem walk_map_down (stack names : List (List α)) :
    walk stack (names.map .down) = some (stack ++ names) := by
  induction names generalizing stack with
  | nil => simp [walk]
  | cons n names ih => simp [walk, ih]

/-- Follow the moves; going up from the empty stack stays there, as `..`
does in the root directory of a file system. -/
def settle : List (List α) → List (Move α) → List (List α)
  | stack, [] => stack
  | stack, .stay :: ms => settle stack ms
  | stack, .up :: ms => settle stack.dropLast ms
  | stack, .down n :: ms => settle (stack ++ [n]) ms

/-- A walk that does not fail settles where it ends. -/
theorem settle_append_of_walk {stack out : List (List α)} {ms : List (Move α)}
    (h : walk stack ms = some out) (ns : List (Move α)) :
    settle stack (ms ++ ns) = settle out ns := by
  induction ms generalizing stack with
  | nil =>
      have hout : stack = out := by simpa [walk] using h
      rw [List.nil_append, hout]
  | cons m ms ih =>
      cases m with
      | stay => exact ih h
      | up =>
          by_cases hs : stack = []
          · simp [walk, hs] at h
          · exact ih (by simpa [walk, hs] using h)
      | down n => exact ih h

/-! ## Normal form of a list of moves -/

/-- A list of moves in normal form: climb some levels, then descend. -/
structure Relative (α : Type*) where
  climb : ℕ
  descend : List (List α)

def Relative.step (r : Relative α) : Move α → Relative α
  | .stay => r
  | .up => if r.descend = [] then ⟨r.climb + 1, []⟩ else ⟨r.climb, r.descend.dropLast⟩
  | .down n => ⟨r.climb, r.descend ++ [n]⟩

def reduce (ms : List (Move α)) : Relative α := ms.foldl Relative.step ⟨0, []⟩

/-- Where the normal form leads from a given stack. -/
def Relative.apply (r : Relative α) (stack : List (List α)) : Option (List (List α)) :=
  if r.climb ≤ stack.length then some (stack.take (stack.length - r.climb) ++ r.descend)
  else none

/-- One move of the normal form is one move of the walk. -/
theorem Relative.apply_step (r : Relative α) (m : Move α) (stack : List (List α)) :
    (r.step m).apply stack = (r.apply stack).bind fun t => walk t [m] := by
  obtain ⟨k, ns⟩ := r
  by_cases hk : k ≤ stack.length
  · cases m with
    | stay => simp [Relative.step, Relative.apply, hk, walk]
    | down n => simp [Relative.step, Relative.apply, hk, walk]
    | up =>
        by_cases hns : ns = []
        · subst hns
          by_cases hlt : k + 1 ≤ stack.length
          · have hne : stack.take (stack.length - k) ≠ [] := by
              intro h
              have := congrArg List.length h
              simp only [List.length_take, List.length_nil] at this
              omega
            have hdrop : (stack.take (stack.length - k)).dropLast =
                stack.take (stack.length - (k + 1)) := by
              rw [List.dropLast_eq_take, List.take_take, List.length_take]
              congr 1
              omega
            simp [Relative.step, Relative.apply, hk, hlt, walk, hne, hdrop]
          · have hz : stack.length - k = 0 := by omega
            simp [Relative.step, Relative.apply, hk, hlt, walk, hz]
        · simp [Relative.step, Relative.apply, hk, hns, walk, List.dropLast_append_of_ne_nil]
  · have hstep : ¬ (Relative.step ⟨k, ns⟩ m).climb ≤ stack.length := by
      cases m with
      | stay => exact hk
      | down n => exact hk
      | up =>
          by_cases hns : ns = []
          · simp only [Relative.step, hns, if_true]
            omega
          · simpa [Relative.step, hns] using hk
    simp [Relative.apply, hk, hstep]

/-- The normal form of the moves decides the walk from every stack. -/
theorem walk_eq_reduce (stack : List (List α)) (ms : List (Move α)) :
    walk stack ms = (reduce ms).apply stack := by
  induction ms using List.reverseRecOn with
  | nil => simp [walk, reduce, Relative.apply]
  | append_singleton ms m ih =>
      have hstep : reduce (ms ++ [m]) = (reduce ms).step m := by
        rw [reduce, List.foldl_concat, reduce]
      rw [walk_append, ih, hstep, Relative.apply_step]

theorem mem_intercalate_of_mem (sep : α) {a : α} {segs : List (List α)} {seg : List α}
    (hseg : seg ∈ segs) (ha : a ∈ seg) : a ∈ [sep].intercalate segs := by
  induction segs with
  | nil => cases hseg
  | cons s segs ih =>
      cases segs with
      | nil =>
          obtain rfl := List.mem_singleton.mp hseg
          simpa using ha
      | cons t segs =>
          rw [List.intercalate_cons_cons]
          rcases List.mem_cons.mp hseg with rfl | hseg
          · exact List.mem_append_left _ (List.mem_append_left _ ha)
          · exact List.mem_append_right _ (ih hseg)

/-! ## Reading a text -/

section Text

variable [DecidableEq α]

def move (dot : α) (seg : List α) : Move α :=
  if seg = [dot, dot] then .up
  else if seg ≠ [] ∧ seg ≠ [dot] then .down seg
  else .stay

def moves (sep dot : α) (text : List α) : List (Move α) := (text.splitOn sep).map (move dot)

/-- The segments of a text that are not empty. -/
def segments (sep : α) (text : List α) : List (List α) :=
  (text.splitOn sep).filter (fun seg => !seg.isEmpty)

theorem move_of_isName {sep dot : α} {seg : List α} (h : IsName sep dot seg) :
    move dot seg = .down seg := by
  simp [move, h.ne_nil, h.ne_dot, h.ne_dotdot]

/-- One segment of the walk, spelled as the scan of a path text decides it. -/
theorem walk_move_cons (dot : α) (stack : List (List α)) (seg : List α) (ms : List (Move α)) :
    walk stack (move dot seg :: ms) =
      if seg = [dot, dot] then (if stack = [] then none else walk stack.dropLast ms)
      else if seg ≠ [] ∧ seg ≠ [dot] then walk (stack ++ [seg]) ms
      else walk stack ms := by
  unfold move
  split_ifs <;> simp_all [walk]

theorem moves_of_notMem {sep : α} {seg : List α} (dot : α) (h : sep ∉ seg) :
    moves sep dot seg = [move dot seg] := by
  rw [moves, List.splitOn_eq_singleton h, List.map_singleton]

theorem moves_append (sep dot : α) (s t : List α) :
    moves sep dot (s ++ sep :: t) = moves sep dot s ++ moves sep dot t := by
  simp [moves, List.splitOn_append_cons_self]

@[simp] theorem moves_nil (sep dot : α) : moves sep dot [] = [.stay] := by
  simp [moves, move]

theorem moves_cons_sep (sep dot : α) (t : List α) :
    moves sep dot (sep :: t) = .stay :: moves sep dot t := by
  simpa using moves_append sep dot [] t

theorem moves_intercalate {sep dot : α} {names : List (List α)}
    (h : ∀ n ∈ names, IsName sep dot n) (hne : names ≠ []) :
    moves sep dot ([sep].intercalate names) = names.map .down := by
  rw [moves, List.splitOn_intercalate sep (fun n hn => (h n hn).sep_notMem) hne]
  exact List.map_congr_left fun n hn => move_of_isName (h n hn)

/-- Walking the text of a normal path appends its names to the stack. -/
theorem walk_text {sep dot : α} (p : NormalPath sep dot) (stack : List (List α)) :
    walk stack (moves sep dot p.text) = some (stack ++ p.names) := by
  rw [NormalPath.text, absolute, moves_cons_sep]
  by_cases hp : p.names = []
  · simp [hp, walk]
  · rw [moves_intercalate p.isName hp]
    exact walk_map_down stack p.names

theorem sep_notMem_of_mem_splitOn {sep : α} {text seg : List α} (h : seg ∈ text.splitOn sep) :
    sep ∉ seg := by
  induction text generalizing seg with
  | nil =>
      have hseg : seg = [] := by simpa [List.splitOn_nil] using h
      simp [hseg]
  | cons a text ih =>
      rw [List.splitOn_cons_eq_if_modifyHead] at h
      split at h
      · rcases List.mem_cons.mp h with rfl | h
        · simp
        · exact ih h
      · rename_i ha
        obtain ⟨s, segs, hsplit⟩ := List.exists_cons_of_ne_nil (List.splitOn_ne_nil sep text)
        rw [hsplit, List.modifyHead_cons] at h
        rcases List.mem_cons.mp h with rfl | h
        · have hs : sep ∉ s := ih (hsplit ▸ List.mem_cons_self)
          have hne : sep ≠ a := fun heq => ha (by simp [heq])
          simp [hs, hne]
        · exact ih (hsplit ▸ List.mem_cons_of_mem _ h)

theorem down_mem_moves {sep dot : α} {text n : List α} (h : .down n ∈ moves sep dot text) :
    n ∈ text.splitOn sep ∧ IsName sep dot n := by
  obtain ⟨seg, hseg, hmove⟩ := List.mem_map.mp h
  have hsep := sep_notMem_of_mem_splitOn hseg
  unfold move at hmove
  split_ifs at hmove with hup hname
  cases hmove
  exact ⟨hseg, hname.1, hname.2, hup, hsep⟩

theorem mem_of_mem_splitOn {sep a : α} {text seg : List α} (h : seg ∈ text.splitOn sep)
    (ha : a ∈ seg) : a ∈ text := by
  have hjoined := mem_intercalate_of_mem sep h ha
  rwa [List.intercalate_splitOn] at hjoined

theorem walk_isName {sep dot : α} {stack out : List (List α)} {segs : List (List α)}
    (hsegs : ∀ s ∈ segs, sep ∉ s) (hstack : ∀ n ∈ stack, IsName sep dot n)
    (h : walk stack (segs.map (move dot)) = some out) : ∀ n ∈ out, IsName sep dot n := by
  induction segs generalizing stack with
  | nil =>
      have hout : stack = out := by simpa [walk] using h
      exact hout ▸ hstack
  | cons s segs ih =>
      have hrest : ∀ t ∈ segs, sep ∉ t := fun t ht => hsegs t (List.mem_cons_of_mem _ ht)
      by_cases hup : s = [dot, dot]
      · by_cases hst : stack = []
        · simp [move, hup, walk, hst] at h
        · refine ih hrest (fun n hn => hstack n (List.dropLast_subset _ hn)) ?_
          simpa [move, hup, walk, hst] using h
      · by_cases hdown : s ≠ [] ∧ s ≠ [dot]
        · refine ih hrest ?_ (by simpa [move, hup, hdown, walk] using h)
          intro n hn
          rcases List.mem_append.mp hn with hn | hn
          · exact hstack n hn
          · have hns : n = s := by simpa using hn
            exact hns ▸ ⟨hdown.1, hdown.2, hup, hsegs s List.mem_cons_self⟩
        · apply ih hrest hstack
          simpa [move, hup, hdown, walk] using h

theorem walk_moves_isName {sep dot : α} {stack out : List (List α)} {text : List α}
    (hstack : ∀ n ∈ stack, IsName sep dot n) (h : walk stack (moves sep dot text) = some out) :
    ∀ n ∈ out, IsName sep dot n :=
  walk_isName (fun _ hs => sep_notMem_of_mem_splitOn hs) hstack h

theorem segments_absolute {sep : α} {segs : List (List α)}
    (hne : ∀ s ∈ segs, s ≠ []) (hsep : ∀ s ∈ segs, sep ∉ s) :
    segments sep (absolute sep segs) = segs := by
  have hsplit : (absolute sep segs).splitOn sep = [] :: ([sep].intercalate segs).splitOn sep := by
    simpa [absolute] using List.splitOn_append_cons_self (a := sep) [] ([sep].intercalate segs)
  rw [segments, hsplit]
  by_cases hs : segs = []
  · simp [hs]
  · rw [List.splitOn_intercalate sep hsep hs, List.filter_cons_of_neg (by simp),
      List.filter_eq_self]
    intro s hmem
    simpa using hne s hmem

theorem absolute_inj {sep dot : α} {segs others : List (List α)}
    (hsegs : ∀ s ∈ segs, IsName sep dot s) (hothers : ∀ s ∈ others, IsName sep dot s)
    (h : absolute sep segs = absolute sep others) : segs = others := by
  have hread := congrArg (segments sep) h
  rwa [segments_absolute (fun s hs => (hsegs s hs).ne_nil) fun s hs => (hsegs s hs).sep_notMem,
    segments_absolute (fun s hs => (hothers s hs).ne_nil) fun s hs => (hothers s hs).sep_notMem]
    at hread

theorem segments_text {sep dot : α} (p : NormalPath sep dot) : segments sep p.text = p.names :=
  segments_absolute (fun n hn => (p.isName n hn).ne_nil) fun n hn => (p.isName n hn).sep_notMem

end Text

/-! ## Prefixes of texts and prefixes of segment lists -/

theorem absolute_cons (sep : α) (s : List α) (segs : List (List α)) :
    absolute sep (s :: segs) = sep :: s ++ (if segs = [] then [] else absolute sep segs) := by
  cases segs with
  | nil => simp [absolute]
  | cons t segs => simp [absolute, List.intercalate_cons_cons]

/-- Without the empty path in the way, every name stands behind a separator. -/
theorem absolute_eq_flatMap (sep : α) {segs : List (List α)} (h : segs ≠ []) :
    absolute sep segs = segs.flatMap (sep :: ·) := by
  induction segs with
  | nil => exact absurd rfl h
  | cons s segs ih =>
      rw [absolute_cons, List.flatMap_cons]
      by_cases hsegs : segs = []
      · rw [if_pos hsegs, hsegs, List.flatMap_nil]
      · rw [if_neg hsegs, ih hsegs]

/-- A walk ends no deeper than the text it has read is long. -/
theorem walk_length_le [DecidableEq α] (sep : α) {dot : α} {stack out segs : List (List α)}
    (h : walk stack (segs.map (move dot)) = some out) :
    (out.flatMap (sep :: ·)).length ≤
      (stack.flatMap (sep :: ·)).length + (segs.flatMap (sep :: ·)).length := by
  induction segs generalizing stack with
  | nil =>
      obtain rfl : stack = out := by simpa [walk] using h
      simp
  | cons seg segs ih =>
      rw [List.map_cons, walk_move_cons] at h
      rw [List.flatMap_cons, List.length_append]
      split_ifs at h with hup hempty hname
      · have hrest := ih h
        have hlast : stack.flatMap (sep :: ·) =
            stack.dropLast.flatMap (sep :: ·) ++ sep :: stack.getLast hempty := by
          conv_lhs => rw [← List.dropLast_concat_getLast hempty]
          rw [List.flatMap_append, List.flatMap_singleton]
        rw [hlast, List.length_append]
        omega
      · have hrest := ih h
        rw [List.flatMap_append, List.flatMap_singleton, List.length_append] at hrest
        omega
      · exact (ih h).trans (by omega)

theorem absolute_append (sep : α) {segs : List (List α)} (h : segs ≠ []) (more : List (List α)) :
    absolute sep (segs ++ more) = absolute sep segs ++ more.flatMap (sep :: ·) := by
  have hne : segs ++ more ≠ [] := fun hnil => h (List.append_eq_nil_iff.mp hnil).1
  rw [absolute_eq_flatMap sep hne, absolute_eq_flatMap sep h, List.flatMap_append]

theorem mem_intercalate {sep a : α} {segs : List (List α)} (h : a ∈ [sep].intercalate segs) :
    a = sep ∨ ∃ s ∈ segs, a ∈ s := by
  induction segs with
  | nil => simp at h
  | cons s segs ih =>
      cases segs with
      | nil => exact Or.inr ⟨s, by simp, by simpa using h⟩
      | cons t segs =>
          rw [List.intercalate_cons_cons, List.mem_append, List.mem_append] at h
          rcases h with (hs | hsep) | hrest
          · exact Or.inr ⟨s, by simp, hs⟩
          · exact Or.inl (by simpa using hsep)
          · rcases ih hrest with ha | ⟨u, hu, hau⟩
            · exact Or.inl ha
            · exact Or.inr ⟨u, List.mem_cons_of_mem _ hu, hau⟩

/-- Two segments followed by separators agree when the longer text extends
the shorter one. -/
theorem eq_of_append_sep_prefix {sep : α} {s t x y : List α} (hs : sep ∉ s) (ht : sep ∉ t)
    (hy : ∀ a ∈ y.head?, a = sep) (h : s ++ sep :: x <+: t ++ y) : s = t ∧ sep :: x <+: y := by
  induction s generalizing t with
  | nil =>
      cases t with
      | nil => exact ⟨rfl, by simpa using h⟩
      | cons b t =>
          have hb : sep = b := (List.cons_prefix_cons.mp h).1
          exact (ht (hb ▸ List.mem_cons_self)).elim
  | cons a s ih =>
      cases t with
      | nil =>
          cases y with
          | nil => simp at h
          | cons c y =>
              have hc : a = sep := (List.cons_prefix_cons.mp h).1.trans (hy c (by simp))
              exact (hs (hc ▸ List.mem_cons_self)).elim
      | cons b t =>
          obtain ⟨hab, hrest⟩ := List.cons_prefix_cons.mp h
          obtain ⟨hst, hx⟩ := ih (fun hm => hs (List.mem_cons_of_mem _ hm))
            (fun hm => ht (List.mem_cons_of_mem _ hm)) hrest
          exact ⟨by rw [hab, hst], hx⟩

theorem prefix_of_prefix_append_sep {sep : α} {s t y : List α} (hs : sep ∉ s)
    (hy : ∀ a ∈ y.head?, a = sep) (h : s <+: t ++ y) : s <+: t := by
  rcases List.prefix_or_prefix_of_prefix h (List.prefix_append t y) with hst | ⟨r, rfl⟩
  · exact hst
  · cases r with
    | nil => simp
    | cons a r =>
        have hr : a :: r <+: y := by simpa using h
        cases y with
        | nil => simp at hr
        | cons b y =>
            have ha : a = sep := (List.cons_prefix_cons.mp hr).1.trans (hy b (by simp))
            exact (hs (ha ▸ by simp)).elim

theorem head?_absolute_tail (sep : α) (segs : List (List α)) :
    ∀ a ∈ (if segs = [] then [] else absolute sep segs : List α).head?, a = sep := by
  intro a ha
  split at ha
  · simp at ha
  · simpa [absolute, eq_comm] using ha

/-- A textual prefix agrees with the other path on all segments but its
last one, and its last one begins the segment in that position. -/
theorem absolute_prefix_iff {sep : α} {init : List (List α)} {last : List α}
    {segs : List (List α)} (hinit : ∀ s ∈ init, sep ∉ s) (hlast : sep ∉ last)
    (hsegs : ∀ s ∈ segs, sep ∉ s) (hne : segs ≠ [] ∨ last ≠ []) :
    absolute sep (init ++ [last]) <+: absolute sep segs ↔
      ∃ suffix rest, segs = init ++ (last ++ suffix) :: rest := by
  induction init generalizing segs with
  | nil =>
      cases segs with
      | nil => simpa [absolute] using hne
      | cons t segs =>
          rw [List.nil_append, absolute_cons, absolute_cons]
          constructor
          · intro h
            have hpre : last <+: t := by
              apply prefix_of_prefix_append_sep hlast (head?_absolute_tail sep segs)
              simpa using h
            obtain ⟨suffix, rfl⟩ := hpre
            exact ⟨suffix, segs, rfl⟩
          · rintro ⟨suffix, rest, heq⟩
            obtain ⟨rfl, rfl⟩ := List.cons.inj heq
            simp [List.append_assoc]
  | cons s init ih =>
      have hs : sep ∉ s := hinit s List.mem_cons_self
      have hinit' : ∀ t ∈ init, sep ∉ t := fun t ht => hinit t (List.mem_cons_of_mem _ ht)
      have hnonempty : init ++ [last] ≠ [] := by simp
      cases segs with
      | nil =>
          simp only [List.cons_append, absolute_cons, hnonempty, if_false]
          constructor
          · intro h
            have := h.length_le
            simp [absolute] at this
          · rintro ⟨suffix, rest, heq⟩
            simp at heq
      | cons t segs =>
          have ht : sep ∉ t := hsegs t List.mem_cons_self
          have hsegs' : ∀ u ∈ segs, sep ∉ u := fun u hu => hsegs u (List.mem_cons_of_mem _ hu)
          rw [List.cons_append, absolute_cons, absolute_cons, if_neg hnonempty]
          constructor
          · intro h
            have h' : s ++ absolute sep (init ++ [last]) <+:
                t ++ (if segs = [] then [] else absolute sep segs) := by simpa using h
            obtain ⟨rfl, htail⟩ := eq_of_append_sep_prefix hs ht (head?_absolute_tail sep segs) h'
            have hne' : segs ≠ [] := by
              rintro rfl
              simp at htail
            rw [if_neg hne'] at htail
            obtain ⟨suffix, rest, rfl⟩ := (ih hinit' hsegs' (Or.inl hne')).mp htail
            exact ⟨suffix, rest, rfl⟩
          · rintro ⟨suffix, rest, heq⟩
            obtain ⟨rfl, hrest⟩ := List.cons.inj heq
            have hne' : segs ≠ [] := by
              rw [hrest]
              simp
            rw [if_neg hne']
            simpa using (ih hinit' hsegs' (Or.inl hne')).mpr ⟨suffix, rest, hrest⟩

/-- `segs` follows `names` up to the last name, in whose place it has a
strictly longer segment that begins with it. -/
def ExtendsLast (names segs : List (List α)) : Prop :=
  ∃ init last suffix rest, names = init ++ [last] ∧ suffix ≠ [] ∧
    segs = init ++ (last ++ suffix) :: rest

theorem ExtendsLast.not_prefix {names segs : List (List α)} (h : ExtendsLast names segs) :
    ¬ names <+: segs := by
  obtain ⟨init, last, suffix, rest, rfl, hsuffix, rfl⟩ := h
  intro hpre
  rw [List.prefix_append_right_inj, List.cons_prefix_cons] at hpre
  exact hsuffix (by simpa using hpre.1)

/-- A path text begins with another one without lying below it in exactly
one way: the last name of the shorter one is extended. -/
theorem absolute_prefix_iff_or {sep : α} {names segs : List (List α)}
    (hnames : ∀ s ∈ names, sep ∉ s) (hne : ∀ s ∈ names, s ≠ []) (hsegs : ∀ s ∈ segs, sep ∉ s) :
    absolute sep names <+: absolute sep segs ↔ names <+: segs ∨ ExtendsLast names segs := by
  rcases List.eq_nil_or_concat names with rfl | ⟨init, last, hconcat⟩
  · simp [absolute]
  · rw [List.concat_eq_append] at hconcat
    subst hconcat
    rw [absolute_prefix_iff (fun s hs => hnames s (List.mem_append_left _ hs))
      (hnames last (by simp)) hsegs (Or.inr (hne last (by simp)))]
    constructor
    · rintro ⟨suffix, rest, rfl⟩
      by_cases hsuffix : suffix = []
      · exact Or.inl ⟨rest, by simp [hsuffix]⟩
      · exact Or.inr ⟨init, last, suffix, rest, rfl, hsuffix, rfl⟩
    · rintro (⟨rest, rfl⟩ | ⟨init', last', suffix, rest, heq, -, rfl⟩)
      · exact ⟨[], rest, by simp⟩
      · obtain ⟨rfl, hlast⟩ := List.append_inj' heq rfl
        obtain rfl : last = last' := by simpa using hlast
        exact ⟨suffix, rest, rfl⟩

end MockServices.Foundations.SegmentPath
