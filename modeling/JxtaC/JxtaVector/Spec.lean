import JxtaC.JxtaVector

/-
  What one call does to a vector that holds a list of objects.
  `Holds v xs`: the slots below `size` are exactly the objects `xs`. `Accounts` is the reference
  balance of a call: what the counts gained is what the slots gained plus what was handed out.
-/

namespace JxtaC.JxtaVector

open Lib Lib.Block List

variable {Obj : Type} {heap : Heap} {v : JxtaVector Obj} {xs : List Obj} {refs : Refs Obj}
variable {i n : Nat}

/-- The vector holds the objects `xs`, one in each slot below its size. -/
structure Holds (v : JxtaVector Obj) (xs : List Obj) : Prop where
  length_eq : v.elements.length = v.capacity
  capacity_lt : v.capacity < uintMod
  size_le : v.size ≤ v.capacity
  slots : v.elements.take v.size = xs.map some

/-- The block can be made large enough for `n` more slots. -/
def CanGrow (heap : Heap) (v : JxtaVector Obj) (n : Nat) : Prop :=
  v.size + n ≤ v.capacity ∨
    (v.capacity + max (v.size + n - v.capacity) indexDefaultIncrease < uintMod ∧
      pointerSize * (v.capacity + max (v.size + n - v.capacity) indexDefaultIncrease) ≤ heap.limit)

theorem Holds.size_eq (h : Holds v xs) : v.size = xs.length := by
  have := congrArg List.length h.slots
  rw [length_take, length_map, h.length_eq] at this
  have := h.size_le
  omega

theorem Holds.getElem? (h : Holds v xs) (hi : i < v.size) : v.elements[i]? = xs[i]?.map some := by
  have hx : (v.elements.take v.size)[i]? = (xs.map some)[i]? := by rw [h.slots]
  rwa [getElem?_take, if_pos hi, getElem?_map] at hx

theorem Holds.slot (h : Holds v xs) (hi : i < v.size) :
    ∃ o, xs[i]? = some o ∧ v.elements[i]? = some (some o) := by
  have hx : i < xs.length := by rw [← h.size_eq]; exact hi
  refine ⟨xs[i], getElem?_eq_getElem hx, ?_⟩
  rw [h.getElem? hi, getElem?_eq_getElem hx]
  rfl

theorem holds_new (hn : n < uintMod)
    (hheap : pointerSize * (if n = 0 then indexDefaultSize else n) ≤ heap.limit) :
    Holds (new heap n : JxtaVector Obj) [] := by
  have hcap : (if n = 0 then indexDefaultSize else n) < uintMod := by
    split
    · decide
    · exact hn
  refine ⟨?_, hcap, Nat.zero_le _, rfl⟩
  simp only [new, calloc, if_pos hheap, Option.getD_some, length_replicate]

/-! ## growth and index moves -/

theorem ensureCapacity_spec (h : Holds v xs) (hgrow : CanGrow heap v n) :
    ∃ v', ensureCapacity heap v ((v.size + n) % uintMod) = .ok (v', .success) ∧ Holds v' xs ∧
      v'.size = v.size ∧ v.size + n ≤ v'.capacity := by
  have hcap := h.capacity_lt
  have hle := h.size_le
  have hlen := h.length_eq
  have hsum : v.size + n < uintMod := by
    rcases hgrow with hg | ⟨hg, -⟩ <;> omega
  rw [Nat.mod_eq_of_lt hsum]
  unfold ensureCapacity
  by_cases hroom : v.capacity < v.size + n
  · rw [if_pos hroom]
    obtain ⟨hlt, hheap⟩ : v.capacity + max (v.size + n - v.capacity) indexDefaultIncrease < uintMod ∧
        pointerSize * (v.capacity + max (v.size + n - v.capacity) indexDefaultIncrease) ≤
          heap.limit := by
      rcases hgrow with hg | hg
      · omega
      · exact hg
    have hmax : (if v.size + n - v.capacity < indexDefaultIncrease then indexDefaultIncrease
        else v.size + n - v.capacity) = max (v.size + n - v.capacity) indexDefaultIncrease := by
      split <;> omega
    generalize hadd : max (v.size + n - v.capacity) indexDefaultIncrease = additional at *
    obtain ⟨elements, hw⟩ := exists_writeAt
      (List.replicate (v.capacity + additional) (none : Option Obj)) 0 (v.elements.take v.size)
      (by rw [length_take, length_replicate]; omega)
    simp only [hmax, increaseCapacity, Nat.mod_eq_of_lt hlt, calloc, if_pos hheap,
      if_neg (show ¬v.capacity + additional < v.capacity by omega),
      readAt_of_le (show 0 + v.size ≤ v.elements.length by omega), drop_zero, ok_bind, hw]
    refine ⟨_, rfl, ⟨?_, hlt, by simp only; omega, ?_⟩, rfl, by simp only; omega⟩
    · rw [length_writeAt hw, length_replicate]
    · have htake := take_writeAt (n := v.size) hw (by rw [length_take]; omega)
      rw [take_zero, nil_append, drop_eq_nil_of_le
        (by simp only [length_take, length_replicate]; omega), append_nil] at htake
      exact htake.trans h.slots
  · rw [if_neg hroom]
    exact ⟨v, rfl, h, rfl, by omega⟩

/-- After `move_index_forward` the slots are the old ones with `n` empty ones at index `i`. -/
theorem moveIndexForward_spec (h : Holds v xs) (hi : i ≤ v.size) (hgrow : CanGrow heap v n) :
    ∃ v', moveIndexForward heap v i n = .ok (v', .success) ∧
      v'.elements.length = v'.capacity ∧ v'.capacity < uintMod ∧ v'.size = v.size + n ∧
      v'.size ≤ v'.capacity ∧
      v'.elements.take v'.size =
        (xs.take i).map some ++ List.replicate n none ++ (xs.drop i).map some := by
  obtain ⟨g, hg, hgh, hgs, hroom⟩ := ensureCapacity_spec h hgrow
  have hcap := hgh.capacity_lt
  have hlen := hgh.length_eq
  have hmoved : ∃ moved, (if i < g.size then
      memmove g.elements ((i + n) % uintMod) i (g.size - i) else .ok g.elements : Exec _) =
        .ok moved ∧ moved.length = g.elements.length ∧ (∀ j, j < i → moved[j]? = g.elements[j]?) ∧
      ∀ j, i ≤ j → j < g.size → moved[j + n]? = g.elements[j]? := by
    by_cases hlt : i < g.size
    · rw [if_pos hlt, Nat.mod_eq_of_lt (by omega)]
      obtain ⟨moved, hm⟩ := exists_memmove g.elements (i + n) i (g.size - i) (by omega) (by omega)
      refine ⟨moved, hm, length_memmove hm, fun j hj => ?_, fun j hj₁ hj₂ => ?_⟩
      · rw [getElem?_memmove hm, if_neg (by omega)]
      · rw [getElem?_memmove hm, if_pos (by omega), show i + (j + n - (i + n)) = j by omega]
    · rw [if_neg hlt]
      exact ⟨_, rfl, rfl, fun _ _ => rfl, fun j hj₁ hj₂ => absurd hj₂ (by omega)⟩
  obtain ⟨moved, hm, hml, hlow, hhigh⟩ := hmoved
  obtain ⟨elements, hset⟩ := exists_memset moved i n none (by omega)
  unfold moveIndexForward
  simp only [hg, ok_bind, hm, hset]
  refine ⟨_, rfl, ?_, hcap, ?_, ?_, ?_⟩
  · show elements.length = g.capacity
    rw [length_writeAt hset, hml, hlen]
  · rw [hgs]; exact Nat.mod_eq_of_lt (by omega)
  · rw [hgs, Nat.mod_eq_of_lt (by omega)]; exact hroom
  · rw [Nat.mod_eq_of_lt (by omega)]
    have hins := take_of_insert (b := g.elements) (d := elements) (i := i) (n := g.size)
      (List.replicate n none) (by omega) (by omega) ?_ ?_ ?_
    · rw [length_replicate, hgh.slots, ← map_take, ← map_drop] at hins
      exact hins
    · intro j hj
      rw [getElem?_memset hset, if_neg (by omega), hlow j hj]
    · intro j hj
      rw [length_replicate] at hj
      rw [getElem?_memset hset, if_pos (by omega), getElem?_replicate, if_pos hj]
    · intro j hj₁ hj₂
      rw [length_replicate, getElem?_memset hset, if_neg (by omega), hhigh j hj₁ hj₂]

theorem moveIndexBackward_spec (h : Holds v xs) (hi : i < v.size) :
    ∃ v', moveIndexBackward v i = .ok v' ∧ Holds v' (xs.eraseIdx i) := by
  have hcap := h.capacity_lt
  have hle := h.size_le
  have hlen := h.length_eq
  have hsize : (v.size + uintMod - 1) % uintMod = v.size - 1 := by
    rw [show v.size + uintMod - 1 = (v.size - 1) + uintMod by omega, Nat.add_mod_right,
      Nat.mod_eq_of_lt (by omega)]
  have hmoved : ∃ moved, (if i < v.size - 1 then
      memmove v.elements i (i + 1) (v.size - 1 - i) else .ok v.elements : Exec _) = .ok moved ∧
      moved.length = v.elements.length ∧ (∀ j, j < i → moved[j]? = v.elements[j]?) ∧
      ∀ j, i ≤ j → j + 1 < v.size → moved[j]? = v.elements[j + 1]? := by
    by_cases hlt : i < v.size - 1
    · rw [if_pos hlt]
      obtain ⟨moved, hm⟩ := exists_memmove v.elements i (i + 1) (v.size - 1 - i) (by omega) (by omega)
      refine ⟨moved, hm, length_memmove hm, fun j hj => ?_, fun j hj₁ hj₂ => ?_⟩
      · rw [getElem?_memmove hm, if_neg (by omega)]
      · rw [getElem?_memmove hm, if_pos (by omega), show i + 1 + (j - i) = j + 1 by omega]
    · rw [if_neg hlt]
      exact ⟨_, rfl, rfl, fun _ _ => rfl, fun j hj₁ hj₂ => absurd hj₂ (by omega)⟩
  obtain ⟨moved, hm, hml, hlow, hhigh⟩ := hmoved
  obtain ⟨elements, hw⟩ := exists_writeAt moved (v.size - 1) [none]
    (by rw [length_singleton]; omega)
  have hwl : elements.length = moved.length := length_writeAt hw
  unfold moveIndexBackward
  simp only [hsize, hm, ok_bind, hw]
  refine ⟨_, rfl, ⟨?_, hcap, by simp only; omega, ?_⟩⟩
  · simp only; omega
  · have hrem := take_of_remove (b := v.elements) (d := elements) (i := i) (k := 1) (n := v.size)
      (by omega) (by omega) ?_ ?_
    · rw [h.slots, ← map_take, ← map_drop, ← map_append,
        ← eraseIdx_eq_take_drop_succ] at hrem
      exact hrem
    · intro j hj
      rw [getElem?_writeAt hw, length_singleton, if_neg (by omega), hlow j hj]
    · intro j hj₁ hj₂
      rw [getElem?_writeAt hw, length_singleton, if_neg (by omega), hhigh j hj₁ hj₂]

/-! ## references -/

section References
variable [DecidableEq Obj]
variable {o : Obj} {ys : List Obj} {i : Nat}

/-- The reference balance of a call that turns the slots `xs` into `xs'`. -/
def Accounts (refs refs' : Refs Obj) (xs xs' : List Obj) (handed : Option Obj) : Prop :=
  ∀ o, refs' o + xs.count o = refs o + xs'.count o + if handed = some o then 1 else 0

/-- Every object of the list is alive and can be shared once for each of its places in it. -/
def Sharable (refs : Refs Obj) (xs : List Obj) : Prop :=
  ∀ o ∈ xs, 0 < refs o ∧ refs o + xs.count o ≤ intMax

theorem share_spec (h : Sharable refs [o]) :
    ∃ refs', share refs o = .ok refs' ∧ ∀ p, refs' p = refs p + [o].count p := by
  obtain ⟨hpos, hmax⟩ := h o (mem_singleton.mpr rfl)
  rw [count_singleton_self] at hmax
  refine ⟨_, by rw [share, if_neg (by omega), if_neg (by omega)], fun p => ?_⟩
  rw [count_singleton]
  by_cases hp : p = o
  · simp [hp]
  · simp [hp, Ne.symm hp]

theorem release_spec (h : 0 < refs o) :
    ∃ refs', release refs o = .ok refs' ∧ ∀ p, refs' p + [o].count p = refs p := by
  refine ⟨_, by rw [release, if_neg (by omega)], fun p => ?_⟩
  rw [count_singleton]
  by_cases hp : p = o
  · subst hp
    simp only [if_true, beq_self_eq_true]
    omega
  · simp [hp, Ne.symm hp]

/-- The loop of `addall_objects_at` writes the objects of the source and shares each of them. -/
theorem copyShared_spec {src dst : List (Option Obj)} {k : Nat}
    (hsrc : (src.drop k).take ys.length = ys.map some) (hdst : i + ys.length ≤ dst.length)
    (hshare : Sharable refs ys) :
    ∃ dst' refs', copyShared src ys.length i k dst refs = .ok (dst', refs') ∧
      writeAt dst i (ys.map some) = .ok dst' ∧ ∀ o, refs' o = refs o + ys.count o := by
  induction ys generalizing i k dst refs with
  | nil =>
    refine ⟨dst, refs, rfl, ?_, fun o => rfl⟩
    rw [writeAt_of_le (by simpa using hdst)]
    simp
  | cons y ys ih =>
    rw [length_cons] at hsrc hdst
    have hhead : src[k]? = some (some y) := by
      have := congrArg (fun l => l[0]?) hsrc
      simpa using this
    have htail : (src.drop (k + 1)).take ys.length = ys.map some := by
      have hk : k < src.length := (List.getElem?_eq_some_iff.mp hhead).1
      rw [drop_eq_getElem_cons hk, take_succ_cons, map_cons] at hsrc
      exact (List.cons.inj hsrc).2
    obtain ⟨hpos, hmax⟩ := hshare y mem_cons_self
    rw [count_cons_self] at hmax
    have hy : Sharable refs [y] := by
      intro o ho
      rw [mem_singleton.mp ho, count_singleton_self]
      omega
    obtain ⟨refs₁, hsh, hrefs₁⟩ := share_spec hy
    obtain ⟨dst₁, hw₁⟩ := exists_writeAt dst i [some y]
      (by rw [length_singleton]; omega)
    have hlen₁ := length_writeAt hw₁
    have hcount : ∀ o, (y :: ys).count o = [y].count o + ys.count o := fun o => by
      rw [← singleton_append, count_append]
    have hroom : i + 1 + ys.length ≤ dst₁.length := by omega
    have hshare₁ : Sharable refs₁ ys := by
      intro o ho
      obtain ⟨h₁, h₂⟩ := hshare o (mem_cons_of_mem _ ho)
      rw [hcount] at h₂
      rw [hrefs₁]
      omega
    obtain ⟨dst₂, refs₂, hcopy, hw₂, hrefs₂⟩ := ih htail hroom hshare₁
    refine ⟨dst₂, refs₂, ?_, writeAt_cons hw₁ hw₂, fun o => ?_⟩
    · simp only [length_cons, copyShared, hhead, shareSlot, hsh, ok_bind, hw₁, hcopy]
    · rw [hrefs₂, hrefs₁, hcount, Nat.add_assoc]

/-! ## insertion -/

omit [DecidableEq Obj] in
theorem holds_insert {w : JxtaVector Obj} {elements : List (Option Obj)} {n : Nat}
    (hn : ys.length = n) (hi : i ≤ xs.length) (hlen : w.elements.length = w.capacity)
    (hcap : w.capacity < uintMod) (hle : w.size ≤ w.capacity) (hsize : i + n ≤ w.size)
    (hslots : w.elements.take w.size =
      (xs.take i).map some ++ List.replicate n none ++ (xs.drop i).map some)
    (hw : writeAt w.elements i (ys.map some) = .ok elements) :
    Holds { w with elements } (xs.take i ++ ys ++ xs.drop i) := by
  refine ⟨by rw [← hlen]; exact length_writeAt hw, hcap, hle, ?_⟩
  have htake := take_writeAt (n := w.size) hw (by rw [length_map]; omega)
  refine htake.trans ?_
  have hti : ((xs.take i).map some).length = i := by
    rw [length_map, length_take]; omega
  have hleft : ((xs.take i).map some ++ List.replicate n none ++ (xs.drop i).map some).take i =
      (xs.take i).map some := by
    rw [append_assoc, take_left' hti]
  have hright : ((xs.take i).map some ++ List.replicate n none ++ (xs.drop i).map some).drop
      (i + n) = (xs.drop i).map some := by
    rw [drop_left' (by rw [length_append, hti, length_replicate])]
  rw [hslots, length_map, hn, hleft, hright, map_append, map_append]

theorem count_insert (xs ys : List Obj) (i : Nat) (o : Obj) :
    (xs.take i ++ ys ++ xs.drop i).count o = xs.count o + ys.count o := by
  have hx : xs.count o = (xs.take i).count o + (xs.drop i).count o := by
    rw [← count_append, take_append_drop]
  rw [count_append, count_append, hx]
  omega

theorem insertObjectAt_spec (h : Holds v xs) (hi : i ≤ v.size) (hgrow : CanGrow heap v 1)
    (hshare : Sharable refs [o]) :
    ∃ v' refs', insertObjectAt heap v refs o i = .ok (v', refs', .success) ∧
      Holds v' (xs.take i ++ [o] ++ xs.drop i) ∧
      Accounts refs refs' xs (xs.take i ++ [o] ++ xs.drop i) none := by
  obtain ⟨w, hw, hlen, hcap, hsize, hle, hslots⟩ := moveIndexForward_spec h hi hgrow
  obtain ⟨refs', hsh, hrefs⟩ := share_spec hshare
  obtain ⟨elements, hwr⟩ := exists_writeAt w.elements i [some o]
    (by rw [length_singleton]; omega)
  refine ⟨_, refs', by simp only [insertObjectAt, hw, ok_bind, hsh, hwr]; rfl, ?_, fun p => ?_⟩
  · exact holds_insert (show [o].length = 1 from rfl) (h.size_eq ▸ hi) hlen hcap hle (by omega) hslots hwr
  · rw [hrefs, count_insert]
    simp
    omega

theorem insertAllObjectsAt_spec (h : Holds v xs) {w : JxtaVector Obj} {zs : List Obj}
    (hw : Holds w ys) {k n : Nat} (hzs : zs = (ys.drop k).take n) (hn : zs.length = n)
    (hi : i ≤ v.size) (hgrow : CanGrow heap v n) (hshare : Sharable refs zs) :
    ∃ v' refs', insertAllObjectsAt heap v refs w i k n = .ok (v', refs', .success) ∧
      Holds v' (xs.take i ++ zs ++ xs.drop i) ∧
      Accounts refs refs' xs (xs.take i ++ zs ++ xs.drop i) none := by
  obtain ⟨g, hg, hlen, hcap, hsize, hle, hslots⟩ := moveIndexForward_spec h hi hgrow
  have hin : k + n ≤ w.size ∨ n = 0 := by
    rw [hzs, length_take, length_drop, ← hw.size_eq] at hn
    omega
  have hsrc : (w.elements.drop k).take zs.length = zs.map some := by
    rw [hn]
    rcases hin with hin | rfl
    · have hslot := congrArg (fun l => (l.drop k).take n) hw.slots
      simp only [drop_take, take_take, ← map_drop, ← map_take] at hslot
      rw [Nat.min_eq_left (by omega)] at hslot
      rw [hslot, hzs]
    · rw [take_zero, eq_nil_of_length_eq_zero hn, map_nil]
  obtain ⟨elements, refs', hcopy, hwr, hrefs⟩ := copyShared_spec hsrc
    (show i + zs.length ≤ g.elements.length by omega) hshare
  rw [hn] at hcopy
  refine ⟨_, refs', by simp only [insertAllObjectsAt, hg, ok_bind, hcopy]; rfl, ?_, fun p => ?_⟩
  · exact holds_insert (n := n) hn (h.size_eq ▸ hi) hlen hcap hle (by omega) hslots hwr
  · rw [hrefs, count_insert]
    simp
    omega

/-! ## removal -/

omit [DecidableEq Obj] in
theorem drop_of_getElem? {x : Obj} (hx : xs[i]? = some x) : xs.drop i = x :: xs.drop (i + 1) := by
  obtain ⟨hi, rfl⟩ := List.getElem?_eq_some_iff.mp hx
  exact drop_eq_getElem_cons hi

theorem count_eraseIdx {x : Obj} (hx : xs[i]? = some x) (o : Obj) :
    xs.count o = (xs.eraseIdx i).count o + [x].count o := by
  have hsplit : xs = xs.take i ++ x :: xs.drop (i + 1) := by
    rw [← drop_of_getElem? hx, take_append_drop]
  rw [eraseIdx_eq_take_drop_succ, count_append]
  conv => lhs; rw [hsplit]
  rw [count_append, ← singleton_append, count_append]
  omega

theorem removeObjectFrom_spec (o : Obj) (fuel i numRemoved : Nat) (h : Holds v xs)
    (hfuel : v.size ≤ i + fuel) (hi : i ≤ v.size) (hrefs : ∀ p, xs.count p ≤ refs p) :
    ∃ v' refs', removeObjectFrom o fuel i numRemoved v refs =
        .ok (v', refs', numRemoved + (xs.drop i).count o) ∧
      Holds v' (xs.take i ++ (xs.drop i).filter (· ≠ o)) ∧
      Accounts refs refs' xs (xs.take i ++ (xs.drop i).filter (· ≠ o)) none := by
  induction fuel generalizing i numRemoved v xs refs with
  | zero =>
    have hnil : xs.drop i = [] := drop_eq_nil_of_le (by rw [← h.size_eq]; omega)
    rw [removeObjectFrom, if_neg (by omega), hnil, filter_nil, append_nil,
      count_nil, take_of_length_le (by rw [← h.size_eq]; omega)]
    exact ⟨v, refs, rfl, h, fun p => by simp⟩
  | succ fuel ih =>
    rw [removeObjectFrom]
    by_cases hlt : i < v.size
    · rw [if_pos hlt]
      obtain ⟨x, hx, hslot⟩ := h.slot hlt
      have hix : i < xs.length := by rw [← h.size_eq]; exact hlt
      have hdrop := drop_of_getElem? hx
      have hcount := count_eraseIdx hx
      simp only [hslot]
      by_cases hxo : x = o
      · subst hxo
        obtain ⟨v₁, hv₁, hh₁⟩ := moveIndexBackward_spec h hlt
        have hpos : 0 < refs x := by
          have := hrefs x
          rw [hcount, count_singleton_self] at this
          omega
        obtain ⟨refs₁, hr₁, hrefs₁⟩ := release_spec hpos
        have htake : (xs.eraseIdx i).take i = xs.take i := by
          rw [eraseIdx_eq_take_drop_succ, take_left' (by rw [length_take]; omega)]
        have htail : (xs.eraseIdx i).drop i = xs.drop (i + 1) := by
          rw [eraseIdx_eq_take_drop_succ, drop_left' (by rw [length_take]; omega)]
        have hsize : v₁.size + 1 = v.size := by
          rw [hh₁.size_eq, h.size_eq, length_eraseIdx, if_pos hix]
          omega
        have hle₁ : ∀ p, (xs.eraseIdx i).count p ≤ refs₁ p := fun p => by
          have h₁ := hrefs p
          have h₂ := hrefs₁ p
          rw [hcount] at h₁
          omega
        obtain ⟨v', refs', hrun, hh, hacc⟩ :=
          ih i (numRemoved + 1) hh₁ (by omega) (by omega) hle₁
        rw [htake, htail] at hh hacc
        rw [htail] at hrun
        have hfilter : (xs.drop i).filter (· ≠ x) = (xs.drop (i + 1)).filter (· ≠ x) := by
          rw [hdrop, filter_cons_of_neg (by simp)]
        rw [if_pos rfl, hfilter]
        refine ⟨v', refs', ?_, hh, fun p => ?_⟩
        · rw [hv₁, ok_bind, hr₁, ok_bind, hrun, hdrop, count_cons_self, Nat.add_assoc,
            Nat.add_comm 1]
        · have h₁ := hacc p
          have h₂ := hrefs₁ p
          rw [hcount]
          omega
      · have htake : xs.take (i + 1) = xs.take i ++ [x] := by
          rw [take_add_one, hx]
          rfl
        have hfilter : xs.take i ++ (xs.drop i).filter (· ≠ o) =
            xs.take (i + 1) ++ (xs.drop (i + 1)).filter (· ≠ o) := by
          rw [hdrop, filter_cons_of_pos (by simpa using hxo), htake, append_assoc,
            singleton_append]
        have hdropc : (xs.drop i).count o = (xs.drop (i + 1)).count o := by
          rw [hdrop, count_cons_of_ne hxo]
        rw [if_neg (by simpa using hxo), hfilter, hdropc]
        exact ih (i + 1) numRemoved h (by omega) (by omega) hrefs
    · have hnil : xs.drop i = [] := drop_eq_nil_of_le (by rw [← h.size_eq]; omega)
      rw [if_neg hlt, hnil, filter_nil, append_nil, count_nil,
        take_of_length_le (by rw [← h.size_eq]; omega)]
      exact ⟨v, refs, rfl, h, fun p => by simp⟩

/-- The loop of `jxta_vector_clear`. -/
theorem releaseAll_spec (hrefs : ∀ o, xs.count o ≤ refs o) :
    ∃ refs', releaseAll (xs.map some) refs = .ok refs' ∧ ∀ o, refs' o + xs.count o = refs o := by
  induction xs generalizing refs with
  | nil => exact ⟨refs, rfl, fun o => rfl⟩
  | cons x xs ih =>
    have hcount : ∀ o, (x :: xs).count o = [x].count o + xs.count o := fun o => by
      rw [← singleton_append, count_append]
    have hpos : 0 < refs x := by
      have := hrefs x
      rw [count_cons_self] at this
      omega
    obtain ⟨refs₁, hr₁, hrefs₁⟩ := release_spec hpos
    have hle₁ : ∀ o, xs.count o ≤ refs₁ o := fun o => by
      have h₁ := hrefs o
      have h₂ := hrefs₁ o
      rw [hcount] at h₁
      omega
    obtain ⟨refs', hr', hrefs'⟩ := ih hle₁
    refine ⟨refs', ?_, fun o => ?_⟩
    · rw [map_cons, releaseAll, releaseSlot, hr₁, ok_bind, hr']
    · rw [hcount, ← hrefs₁, ← hrefs']
      omega

end References

end JxtaC.JxtaVector
