import Mathlib.Data.List.Basic

namespace LibTpm.Base.Paging

variable {ε σ κ : Type}

/-- Visit the elements in order, up to the first one that is accepted. -/
def visitAll (visit : ε → σ → Bool × σ) : List ε → σ → Bool × σ
  | [], s => (false, s)
  | e :: es, s =>
      if (visit e s).1 then (true, (visit e s).2) else visitAll visit es (visit e s).2

theorem visitAll_append (visit : ε → σ → Bool × σ) (xs ys : List ε) (s : σ) :
    visitAll visit (xs ++ ys) s =
      if (visitAll visit xs s).1 then visitAll visit xs s
      else visitAll visit ys (visitAll visit xs s).2 := by
  induction xs generalizing s with
  | nil => rfl
  | cons x xs ih =>
      rw [List.cons_append, visitAll, visitAll]
      by_cases h : (visit x s).1
      · rw [if_pos h, if_pos h]
        rfl
      · rw [if_neg h, if_neg h, ih]

theorem visitAll_accepted {visit : ε → σ → Bool × σ} {xs : List ε} {s s' : σ}
    (h : visitAll visit xs s = (true, s')) (ys : List ε) :
    visitAll visit (xs ++ ys) s = (true, s') := by
  rw [visitAll_append, h, if_pos rfl]

theorem visitAll_continues {visit : ε → σ → Bool × σ} {xs : List ε} {s s' : σ}
    (h : visitAll visit xs s = (false, s')) (ys : List ε) :
    visitAll visit (xs ++ ys) s = visitAll visit ys s' := by
  rw [visitAll_append, h, if_neg (by simp)]

theorem visitAll_fold (mark : ε → σ → σ) (es : List ε) (s : σ) :
    visitAll (fun e s => (false, mark e s)) es s = (false, es.foldl (fun s e => mark e s) s) := by
  induction es generalizing s with
  | nil => rfl
  | cons e es ih =>
      rw [visitAll, if_neg (by simp), ih, List.foldl_cons]

theorem visitAll_fold_ne (mark : ε → σ → σ) (es : List ε) (s s' : σ) :
    visitAll (fun e s => (false, mark e s)) es s ≠ (true, s') := by
  rw [visitAll_fold]
  exact fun h => Bool.false_ne_true (congrArg Prod.fst h)

theorem visitAll_filter (P : ε → Bool) (visit : ε → σ → Bool × σ) (es : List ε) (s : σ) :
    visitAll (fun e s => if P e then visit e s else (false, s)) es s =
      visitAll visit (es.filter P) s := by
  induction es generalizing s with
  | nil => rfl
  | cons e es ih =>
      rw [visitAll]
      by_cases h : P e
      · rw [if_pos h, List.filter_cons_of_pos h, visitAll, ih]
      · rw [if_neg h, if_neg (by simp), List.filter_cons_of_neg h, ih]

/-! The elements before the first terminator. -/

section Slots

variable {α : Type} (isEnd : α → Prop) [DecidablePred isEnd]

def mapBefore (f : α → α) : List α → List α
  | [] => []
  | a :: as => if isEnd a then a :: as else f a :: mapBefore f as

theorem mapBefore_comp {f g : α → α} (hg : ∀ a, isEnd (g a) ↔ isEnd a) (as : List α) :
    mapBefore isEnd f (mapBefore isEnd g as) = mapBefore isEnd (fun a => f (g a)) as := by
  induction as with
  | nil => rfl
  | cons a as ih =>
      by_cases h : isEnd a
      · simp only [mapBefore, if_pos h]
      · have hga : ¬ isEnd (g a) := fun hc => h ((hg a).mp hc)
        simp only [mapBefore, if_neg h, if_neg hga, ih]

theorem mapBefore_congr {f g : α → α} {as : List α}
    (h : ∀ a ∈ as.takeWhile (fun a => ¬ isEnd a), f a = g a) :
    mapBefore isEnd f as = mapBefore isEnd g as := by
  induction as with
  | nil => rfl
  | cons a as ih =>
      by_cases ha : isEnd a
      · simp only [mapBefore, if_pos ha]
      · have htake : (a :: as).takeWhile (fun a => ¬ isEnd a) =
            a :: as.takeWhile (fun a => ¬ isEnd a) := List.takeWhile_cons_of_pos (by simpa using ha)
        rw [htake] at h
        simp only [mapBefore, if_neg ha]
        rw [h a List.mem_cons_self, ih fun b hb => h b (List.mem_cons_of_mem _ hb)]

theorem mapBefore_id (as : List α) : mapBefore isEnd (fun a => a) as = as := by
  induction as with
  | nil => rfl
  | cons a as ih => rw [mapBefore, ih, ite_self]

theorem map_mapBefore {β : Type} {f : α → α} {g : α → β} (h : ∀ a, g (f a) = g a) (as : List α) :
    (mapBefore isEnd f as).map g = as.map g := by
  induction as with
  | nil => rfl
  | cons a as ih =>
      rw [mapBefore]
      split
      · rfl
      · rw [List.map_cons, List.map_cons, h, ih]

theorem dropWhile_mapBefore {f : α → α} (h : ∀ a, isEnd (f a) ↔ isEnd a) (as : List α) :
    (mapBefore isEnd f as).dropWhile (fun a => ¬ isEnd a) = as.dropWhile (fun a => ¬ isEnd a) := by
  induction as with
  | nil => rfl
  | cons a as ih =>
      by_cases ha : isEnd a
      · simp only [mapBefore, if_pos ha]
      · have hfa : ¬ isEnd (f a) := fun hc => ha ((h a).mp hc)
        simp only [mapBefore, if_neg ha]
        rw [List.dropWhile_cons_of_pos (by simpa using hfa),
          List.dropWhile_cons_of_pos (by simpa using ha), ih]

end Slots

section Pages

variable (key : ε → Nat)

def Ascending (S : List ε) : Prop := S.Pairwise fun a b => key a < key b

def below (p : Nat) (S : List ε) : List ε := S.filter fun e => key e < p

def above (p : Nat) (S : List ε) : List ε := S.filter fun e => p ≤ key e

/-- A page that answers a request from `p` on: the next members of `S`, at
least one when there is one, and whether members remain after them. -/
structure IsPage (S : List ε) (p : Nat) (page : List ε) (more : Bool) : Prop where
  next : ∃ rest, above key p S = page ++ rest ∧ (more = true ↔ rest ≠ [])
  nonempty : page = [] → above key p S = []

/-- A run over pages that resumes after the last element of each page: the
pages that announced more, and the resume point. -/
inductive Walk (A : Nat → List ε → Bool → Prop) : List (List ε) → Nat → Prop
  | start : Walk A [] 0
  | resume {pages : List (List ε)} {p : Nat} {page : List ε} {last : ε} (h : Walk A pages p)
      (hpage : A p (page ++ [last]) true) : Walk A (pages ++ [page ++ [last]]) (key last + 1)

variable {key} {S page : List ε} {p : Nat} {more : Bool}

theorem below_append (p : Nat) (xs ys : List ε) :
    below key p (xs ++ ys) = below key p xs ++ below key p ys := List.filter_append xs ys

theorem below_append_above (h : Ascending key S) (p : Nat) : below key p S ++ above key p S = S := by
  induction S with
  | nil => rfl
  | cons e S ih =>
      obtain ⟨he, hS⟩ := List.pairwise_cons.mp h
      by_cases hp : key e < p
      · rw [below, above, List.filter_cons_of_pos (by simpa using hp),
          List.filter_cons_of_neg (by simpa using hp), List.cons_append]
        exact congrArg (e :: ·) (ih hS)
      · have hbelow : below key p S = [] := by
          apply List.filter_eq_nil_iff.mpr
          intro x hx
          have := he x hx
          simpa using (by omega : p ≤ key x)
        have habove : above key p S = S := by
          have := ih hS
          rwa [hbelow, List.nil_append] at this
        rw [below, above, List.filter_cons_of_neg (by simpa using hp),
          List.filter_cons_of_pos (by simpa using Nat.le_of_not_lt hp)]
        change below key p S ++ e :: above key p S = _
        rw [hbelow, habove, List.nil_append]

theorem eq_of_above (hS : Ascending key S) {e x : ε} {es : List ε} (h : above key p S = e :: es)
    (hx : x ∈ S) (hp : key x = p) : x = e := by
  have hmem : x ∈ above key p S := List.mem_filter.mpr ⟨hx, decide_eq_true (Nat.le_of_eq hp.symm)⟩
  have hfirst : e ∈ above key p S := by
    rw [h]
    exact List.mem_cons_self
  have hle : p ≤ key e := of_decide_eq_true (List.mem_filter.mp hfirst).2
  have hasc : Ascending key (above key p S) := hS.sublist List.filter_sublist
  rw [h] at hmem hasc
  rcases List.mem_cons.mp hmem with hx | hx
  · exact hx
  · have hlt := (List.pairwise_cons.mp hasc).1 x hx
    omega

theorem IsPage.not_more_of_nil (h : IsPage key S p [] more) : more = false := by
  obtain ⟨rest, hrest, hmore⟩ := h.next
  rw [h.nonempty rfl] at hrest
  cases more with
  | false => rfl
  | true => exact absurd hrest.symm (hmore.mp rfl)

theorem IsPage.mem (h : IsPage key S p page more) {e : ε} (he : e ∈ page) : e ∈ S := by
  obtain ⟨rest, hrest, -⟩ := h.next
  have : e ∈ above key p S := by
    rw [hrest]
    exact List.mem_append_left rest he
  exact List.mem_of_mem_filter this

/-- The next `k` members from `p` on, and whether there are more. -/
def nextPage (key : ε → Nat) (S : List ε) (p k : Nat) : List ε × Bool :=
  ((above key p S).take k, decide (k < (above key p S).length))

theorem isPage_nextPage (S : List ε) (p : Nat) {k : Nat} (hk : 0 < k) :
    IsPage key S p (nextPage key S p k).1 (nextPage key S p k).2 where
  next := by
    refine ⟨(above key p S).drop k, (List.take_append_drop k _).symm, ?_⟩
    rw [nextPage, decide_eq_true_eq, ne_eq, List.drop_eq_nil_iff, Nat.not_le]
  nonempty h := by
    rcases List.take_eq_nil_iff.mp h with h | h
    · exact absurd h (Nat.ne_of_gt hk)
    · exact h

theorem length_nextPage {S : List ε} {p k : Nat} (h : (nextPage key S p k).2 = true) :
    (nextPage key S p k).1.length = k := by
  rw [nextPage, List.length_take, Nat.min_eq_left (Nat.le_of_lt (of_decide_eq_true h))]

theorem nextPage_sublist (key : ε → Nat) (S : List ε) (p k : Nat) : (nextPage key S p k).1.Sublist S :=
  (List.take_sublist k _).trans List.filter_sublist

theorem IsPage.complete (hS : Ascending key S) (h : IsPage key S p page false) :
    below key p S ++ page = S := by
  obtain ⟨rest, hrest, hmore⟩ := h.next
  have hnil : rest = [] := by
    by_contra hne
    exact absurd (hmore.mpr hne) (by simp)
  rw [hnil, List.append_nil] at hrest
  rw [← hrest]
  exact below_append_above hS p

theorem IsPage.remainder (hS : Ascending key S) (h : IsPage key S p page true) :
    ∃ rest, rest ≠ [] ∧ S = below key p S ++ page ++ rest := by
  obtain ⟨rest, hrest, hmore⟩ := h.next
  refine ⟨rest, hmore.mp rfl, ?_⟩
  rw [List.append_assoc, ← hrest, below_append_above hS p]

/-- After a page the resume point has passed exactly its elements. -/
theorem IsPage.advance (hS : Ascending key S) {last : ε} (h : IsPage key S p (page ++ [last]) more) :
    below key p S ++ (page ++ [last]) = below key (key last + 1) S := by
  obtain ⟨rest, hrest, -⟩ := h.next
  have hsplit : (below key p S ++ (page ++ [last])) ++ rest = S := by
    rw [List.append_assoc, ← hrest, below_append_above hS p]
  have hpair : Ascending key ((below key p S ++ (page ++ [last])) ++ rest) := by rwa [hsplit]
  obtain ⟨hfront, -, hcross⟩ := List.pairwise_append.mp hpair
  rw [← List.append_assoc] at hfront
  have hpassed : ∀ e ∈ below key p S ++ (page ++ [last]), key e < key last + 1 := by
    intro e he
    rw [← List.append_assoc] at he
    rcases List.mem_append.mp he with he | he
    · exact Nat.lt_succ_of_lt ((List.pairwise_append.mp hfront).2.2 e he last (by simp))
    · rw [List.mem_singleton.mp he]
      exact Nat.lt_succ_self _
  have hahead : ∀ e ∈ rest, ¬ key e < key last + 1 := by
    intro e he
    have := hcross last (by simp) e he
    omega
  calc below key p S ++ (page ++ [last])
      = below key (key last + 1) ((below key p S ++ (page ++ [last])) ++ rest) := by
        have hself : below key (key last + 1) (below key p S ++ (page ++ [last])) =
            below key p S ++ (page ++ [last]) :=
          List.filter_eq_self.mpr fun e he => by simpa using hpassed e he
        have hnil : below key (key last + 1) rest = [] :=
          List.filter_eq_nil_iff.mpr fun e he => by simpa using hahead e he
        rw [below_append, hself, hnil, List.append_nil]
    _ = below key (key last + 1) S := by rw [hsplit]

theorem flatten_walk (hS : Ascending key S) {pages : List (List ε)}
    (h : Walk key (IsPage key S) pages p) : pages.flatten = below key p S := by
  induction h with
  | start =>
      symm
      apply List.filter_eq_nil_iff.mpr
      intro e _
      simp
  | resume _ hpage ih =>
      rw [List.flatten_concat, ih, hpage.advance hS]

theorem walk_remainder (hS : Ascending key S) {pages : List (List ε)}
    (h : Walk key (IsPage key S) pages p) (hne : pages ≠ []) :
    ∃ rest, rest ≠ [] ∧ S = pages.flatten ++ rest := by
  cases h with
  | start => exact absurd rfl hne
  | resume hwalk hpage =>
      obtain ⟨rest, hrest, hs⟩ := hpage.remainder hS
      refine ⟨rest, hrest, ?_⟩
      rw [List.flatten_concat, flatten_walk hS hwalk]
      exact hs

theorem length_flatten_walk {A : Nat → List ε → Bool → Prop} {k : Nat}
    (hA : ∀ p page, A p page true → page.length = k) {pages : List (List ε)}
    (h : Walk key A pages p) : pages.flatten.length = k * pages.length := by
  induction h with
  | start => rfl
  | resume _ hpage ih =>
      rw [List.flatten_concat, List.length_append, ih, hA _ _ hpage, List.length_append,
        List.length_singleton, Nat.mul_succ]

theorem Walk.imp {A A' : Nat → List ε → Bool → Prop} (hA : ∀ p page, A p page true → A' p page true)
    {pages : List (List ε)} (h : Walk key A pages p) : Walk key A' pages p := by
  induction h with
  | start => exact .start
  | resume _ hpage ih => exact ih.resume (hA _ _ hpage)

theorem Walk.map {A : Nat → List ε → Bool → Prop} {key' : κ → Nat} {A' : Nat → List κ → Bool → Prop}
    (g : ε → κ) (hkey : ∀ e, key' (g e) = key e)
    (hA : ∀ p page, A p page true → A' p (page.map g) true) {pages : List (List ε)}
    (h : Walk key A pages p) : Walk key' A' (pages.map (List.map g)) p := by
  induction h with
  | start => exact .start
  | resume _ hpage ih =>
      have h := hA _ _ hpage
      rw [List.map_append] at h
      rw [List.map_append, ← hkey]
      simpa using ih.resume h

end Pages

end LibTpm.Base.Paging
