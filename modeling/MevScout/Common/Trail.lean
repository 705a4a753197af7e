import Mathlib

/-!
# Closed trails

Walks in a directed multigraph, whose edges of a type `ι` have a source, a target and a label.
A closed trail uses no edge twice and ends where it starts. A search that follows a trail from
its start gives up where the trail comes back too early; `exists_noReturn` says that it still
meets one when there is a closed trail with two labels.

Results:
* `walk_append`: walks compose and split;
* `ClosedTrail.rotate`: a closed trail can start at each of its vertices;
* `exists_noReturn`: among the closed trails with two labels there is one that comes back to
  its start at its end only;
* `exists_noReturn_ne`: when the trail leaves a vertex, there is one that does not start there;
* `eq_pair_of_there_and_back`: a closed walk that enters no vertex twice and goes there and back has
  two edges.
-/

namespace MevScout.Trail

variable {ι V P : Type*} (src dst : ι → V) (label : ι → P)

/-- A list of edges leads from one vertex to another. -/
def Walk : V → List ι → V → Prop
  | u, [], v => u = v
  | u, e :: l, v => src e = u ∧ Walk (dst e) l v

/-- A walk from a vertex to itself that uses no edge twice. -/
structure ClosedTrail (v : V) (l : List ι) : Prop where
  nodup : l.Nodup
  walk : Walk src dst v l v

/-- Two of the edges have different labels. -/
def Mixed (l : List ι) : Prop := ∃ a ∈ l, ∃ b ∈ l, label a ≠ label b

/-- The walk comes back to `v` at its end only, or after its first edge. -/
def NoReturn (v : V) (l : List ι) : Prop :=
  ∀ l₁ l₂, l = l₁ ++ l₂ → 2 ≤ l₁.length → l₂ ≠ [] → ¬ Walk src dst v l₁ v

variable {src dst label} {u v w : V} {l l₁ l₂ : List ι}

/-! ## Walks -/

theorem walk_append :
    Walk src dst u (l₁ ++ l₂) w ↔ ∃ v, Walk src dst u l₁ v ∧ Walk src dst v l₂ w := by
  induction l₁ generalizing u with
  | nil => simp [Walk]
  | cons e l₁ ih => simp only [List.cons_append, Walk, ih, ← exists_and_left, and_assoc]

/-- A walk leads to one vertex. -/
theorem Walk.target_eq (h : Walk src dst u l v) (h' : Walk src dst u l w) : v = w := by
  induction l generalizing u with
  | nil => exact h.symm.trans h'
  | cons e l ih => exact ih h.2 h'.2

/-- The edges of a walk can be renamed. -/
theorem walk_map {κ : Type*} {f : κ → ι} {l : List κ} :
    Walk src dst u (l.map f) v ↔ Walk (fun k => src (f k)) (fun k => dst (f k)) u l v := by
  induction l generalizing u with
  | nil => rfl
  | cons k l ih => exact and_congr_right fun _ => ih

theorem noReturn_map {κ : Type*} {f : κ → ι} {l : List κ} :
    NoReturn src dst v (l.map f) ↔
      NoReturn (fun k => src (f k)) (fun k => dst (f k)) v l := by
  constructor
  · intro h l₁ l₂ hl hlen hne hwalk
    refine h (l₁.map f) (l₂.map f) (by rw [hl, List.map_append]) (by rwa [List.length_map]) ?_
      (walk_map.mpr hwalk)
    rwa [ne_eq, List.map_eq_nil_iff]
  · intro h l₁ l₂ hl hlen hne hwalk
    obtain ⟨k₁, k₂, rfl, rfl, rfl⟩ := List.map_eq_append_iff.mp hl
    rw [List.length_map] at hlen
    rw [ne_eq, List.map_eq_nil_iff] at hne
    exact h k₁ k₂ rfl hlen hne (walk_map.mp hwalk)

/-- A walk that is not back yet goes on without coming back. -/
theorem NoReturn.concat {e : ι} (h : NoReturn src dst v l)
    (hback : ¬(2 ≤ l.length ∧ Walk src dst v l v)) : NoReturn src dst v (l ++ [e]) := by
  intro l₁ l₂ heq hlen hne hwalk
  obtain ⟨k, x, rfl⟩ := (List.eq_nil_or_concat' l₂).resolve_left hne
  rw [← List.append_assoc] at heq
  obtain ⟨rfl, -⟩ := List.append_inj' heq rfl
  cases k with
  | nil =>
    rw [List.append_nil] at hback
    exact hback ⟨hlen, hwalk⟩
  | cons y k => exact h l₁ (y :: k) rfl hlen (List.cons_ne_nil y k) hwalk

/-- An edge of a walk leads to its end or to where another edge starts. -/
theorem Walk.dst_eq (h : Walk src dst u l v) {e : ι} (he : e ∈ l) :
    dst e = v ∨ ∃ f ∈ l, src f = dst e := by
  obtain ⟨l₁, l₂, rfl⟩ := List.append_of_mem he
  obtain ⟨w, -, -, hrest⟩ := walk_append.mp h
  cases l₂ with
  | nil => exact .inl hrest
  | cons f l₂ => exact .inr ⟨f, by simp, hrest.1⟩

/-! ## Closed trails -/

/-- The last element of a list is in the last part of it. -/
theorem mem_of_append_eq {a : ι} (h : l ++ [a] = l₁ ++ l₂) (hne : l₂ ≠ []) : a ∈ l₂ := by
  have hlast := congrArg List.getLast? h
  rw [List.getLast?_concat, List.getLast?_append_of_ne_nil _ hne] at hlast
  exact List.mem_of_getLast? hlast.symm

/-- A closed trail can start at each of its vertices. -/
theorem ClosedTrail.rotate (h : ClosedTrail src dst v (l₁ ++ l₂)) :
    ∃ u, ClosedTrail src dst u (l₂ ++ l₁) := by
  obtain ⟨u, h₁, h₂⟩ := walk_append.mp h.walk
  exact ⟨u, List.nodup_append_comm.mp h.nodup, walk_append.mpr ⟨v, h₂, h₁⟩⟩

/-- Where a closed trail comes back to its start, it falls into two. -/
theorem ClosedTrail.split (h : ClosedTrail src dst v (l₁ ++ l₂)) (hback : Walk src dst v l₁ v) :
    ClosedTrail src dst v l₁ ∧ ClosedTrail src dst v l₂ := by
  obtain ⟨u, h₁, h₂⟩ := walk_append.mp h.walk
  obtain rfl := hback.target_eq h₁
  exact ⟨⟨(List.nodup_append.mp h.nodup).1, h₁⟩, ⟨(List.nodup_append.mp h.nodup).2.1, h₂⟩⟩

theorem Mixed.perm (h : Mixed label l) {l' : List ι} (hperm : l.Perm l') : Mixed label l' := by
  obtain ⟨a, ha, b, hb, hab⟩ := h
  exact ⟨a, hperm.subset ha, b, hperm.subset hb, hab⟩

/-- Somewhere in a list with two labels the label changes. -/
theorem Mixed.exists_change (h : Mixed label l) :
    ∃ l₁ a b l₂, l = l₁ ++ a :: b :: l₂ ∧ label a ≠ label b := by
  induction l with
  | nil =>
    obtain ⟨a, ha, -⟩ := h
    exact absurd ha List.not_mem_nil
  | cons c l ih =>
    by_cases hmixed : Mixed label l
    · obtain ⟨l₁, a, b, l₂, rfl, hab⟩ := ih hmixed
      exact ⟨c :: l₁, a, b, l₂, rfl, hab⟩
    · -- the rest has one label, so the label changes after the first edge
      cases l with
      | nil =>
        obtain ⟨a, ha, b, hb, hab⟩ := h
        rw [List.mem_singleton] at ha hb
        exact absurd (congrArg label (ha.trans hb.symm)) hab
      | cons d l =>
        refine ⟨[], c, d, l, rfl, fun hcd => hmixed ?_⟩
        have hlabel : ∀ a ∈ c :: d :: l, ∃ a' ∈ d :: l, label a' = label a := by
          intro a ha
          rcases List.mem_cons.mp ha with rfl | ha
          · exact ⟨d, List.mem_cons_self .., hcd.symm⟩
          · exact ⟨a, ha, rfl⟩
        obtain ⟨a, ha, b, hb, hab⟩ := h
        obtain ⟨a', ha', hla⟩ := hlabel a ha
        obtain ⟨b', hb', hlb⟩ := hlabel b hb
        exact ⟨a', ha', b', hb', by rwa [hla, hlb]⟩

/-- Where a closed trail comes back too early, both parts are closed trails. -/
theorem ClosedTrail.exists_split (h : ClosedTrail src dst v l) (hreturn : ¬ NoReturn src dst v l) :
    ∃ l₁ l₂, l = l₁ ++ l₂ ∧ 2 ≤ l₁.length ∧ l₂ ≠ [] ∧ ClosedTrail src dst v l₁ ∧
      ClosedTrail src dst v l₂ := by
  unfold NoReturn at hreturn
  push Not at hreturn
  obtain ⟨l₁, l₂, rfl, hlen, hne, hback⟩ := hreturn
  exact ⟨l₁, l₂, rfl, hlen, hne, h.split hback⟩

/-- Among the closed trails with two labels there is one that comes back to its start at its
    end only. -/
theorem exists_noReturn (h : ClosedTrail src dst v l) (hmixed : Mixed label l) :
    ∃ u t, ClosedTrail src dst u t ∧ Mixed label t ∧ NoReturn src dst u t := by
  by_contra hnone
  push Not at hnone
  induction hn : l.length using Nat.strong_induction_on generalizing v l with
  | _ n ih =>
    -- the parts of a closed trail of this length have one label each
    have hmono : ∀ {u : V} {t : List ι}, ClosedTrail src dst u t → t.length < n →
        ∀ a ∈ t, ∀ b ∈ t, label a = label b := by
      intro u t ht hlt a ha b hb
      by_contra hab
      exact ih t.length hlt ht ⟨a, ha, b, hb, hab⟩ rfl
    -- start where the label changes
    obtain ⟨l₁, a, b, l₂, rfl, hab⟩ := hmixed.exists_change
    have hcut : l₁ ++ a :: b :: l₂ = (l₁ ++ [a]) ++ b :: l₂ := by simp
    rw [hcut] at h hmixed hn
    obtain ⟨u, ht⟩ := h.rotate
    obtain ⟨t₁, t₂, heq, hlen, hne, ht₁, ht₂⟩ :=
      ht.exists_split (hnone u _ ht (hmixed.perm List.perm_append_comm))
    have hsum : t₁.length + t₂.length = n := by
      have := congrArg List.length heq
      simp only [List.length_append, List.length_cons, List.length_nil] at this hn
      omega
    have hpos : 0 < t₂.length := List.length_pos_of_ne_nil hne
    -- the first part is `b`, `x`, …, and the second ends with `a`
    obtain ⟨x, t₁, rfl⟩ : ∃ x t, t₁ = b :: x :: t := by
      match t₁, hlen with
      | c :: x :: t, _ =>
        rw [List.cons_append, List.cons_append] at heq
        exact ⟨x, t, by rw [(List.cons.inj heq).1]⟩
    have ha₂ : a ∈ t₂ := by
      rw [← List.append_assoc] at heq
      exact mem_of_append_eq heq hne
    have hx : label x = label b :=
      hmono ht₁ (by omega) x (by simp) b (by simp)
    -- start one edge later
    rw [heq] at ht
    have hcut' : (b :: x :: t₁) ++ t₂ = [b] ++ ((x :: t₁) ++ t₂) := rfl
    rw [hcut'] at ht
    obtain ⟨w, hs⟩ := ht.rotate
    have hmixed' : Mixed label ((x :: t₁) ++ t₂ ++ [b]) :=
      ⟨a, by simp [ha₂], b, by simp, hab⟩
    obtain ⟨s₁, s₂, heq', hlen', hne', hs₁, hs₂⟩ := hs.exists_split (hnone w _ hs hmixed')
    have hsum' : s₁.length + s₂.length = n := by
      have := congrArg List.length heq'
      simp only [List.length_append, List.length_cons, List.length_nil] at this hsum
      omega
    have hpos' : 0 < s₂.length := List.length_pos_of_ne_nil hne'
    have hxs : x ∈ s₁ := by
      match s₁, hlen' with
      | c :: s, _ =>
        rw [List.cons_append, List.cons_append, List.cons_append] at heq'
        rw [(List.cons.inj heq').1]
        exact List.mem_cons_self ..
    have hbs : b ∈ s₂ := mem_of_append_eq heq' hne'
    have has : a ∈ s₁ ++ s₂ := by
      rw [← heq']
      simp [ha₂]
    rcases List.mem_append.mp has with has | has
    · exact hab ((hmono hs₁ (by omega) a has x hxs).trans hx)
    · exact hab (hmono hs₂ (by omega) a has b hbs)

/-! ## Trails that start elsewhere -/

/-- A closed trail is cut into two parts, and the last edge of the first has another label than
    the second. It leads from `a` when no closed trail with two labels starts elsewhere and comes
    back at its end only, and the shorter closed trails that leave `a` have one label each. -/
theorem src_last_eq {a : V} {n : ℕ} {k m : List ι} {x : ι}
    (hnone : ∀ u t, u ≠ a → ClosedTrail src dst u t → Mixed label t → ¬ NoReturn src dst u t)
    (hmono : ∀ u t, ClosedTrail src dst u t → t.length < n → (∃ e ∈ t, src e ≠ a) →
      ∀ b ∈ t, ∀ c ∈ t, label b = label c)
    (h : ClosedTrail src dst v ((k ++ [x]) ++ m)) (hlen : ((k ++ [x]) ++ m).length = n)
    (hne : m ≠ []) (hlabel : ∀ b ∈ m, label x ≠ label b) : src x = a := by
  by_contra hx
  obtain ⟨y, m, rfl⟩ := List.exists_cons_of_ne_nil hne
  have hcut : (k ++ [x]) ++ y :: m = k ++ (x :: y :: m) := by simp
  rw [hcut] at h hlen
  obtain ⟨u, ht⟩ := h.rotate
  obtain rfl : src x = u := ht.walk.1
  have hxy : label x ≠ label y := hlabel y (List.mem_cons_self ..)
  obtain ⟨s₁, s₂, heq, hlen₁, hne₂, hs₁, -⟩ :=
    ht.exists_split (hnone _ _ hx ht ⟨x, by simp, y, by simp, hxy⟩)
  have hsum := congrArg List.length heq
  simp only [List.length_append, List.length_cons] at hsum hlen
  have hpos : 0 < s₂.length := List.length_pos_of_ne_nil hne₂
  -- the first part begins with `x` and `y`
  match s₁, hlen₁ with
  | c :: d :: s, _ =>
    rw [List.cons_append, List.cons_append, List.cons_append, List.cons_append] at heq
    obtain ⟨hc, heq⟩ := List.cons.inj heq
    obtain ⟨hd, -⟩ := List.cons.inj heq
    simp only [List.length_cons] at hsum
    refine hxy (hmono _ _ hs₁ ?_ ⟨x, ?_, hx⟩ x ?_ y ?_)
    · simp only [List.length_cons]
      omega
    · simp [hc]
    · simp [hc]
    · simp [hd]

/-- A closed trail with two labels that leaves `a` gives one that starts elsewhere and comes back
    to its start at its end only. -/
theorem exists_noReturn_ne {a : V} (h : ClosedTrail src dst v l) (hmixed : Mixed label l)
    (hleaves : ∃ e ∈ l, src e ≠ a) :
    ∃ u t, u ≠ a ∧ ClosedTrail src dst u t ∧ Mixed label t ∧ NoReturn src dst u t := by
  by_contra hnot
  have hnone : ∀ u t, u ≠ a → ClosedTrail src dst u t → Mixed label t →
      ¬ NoReturn src dst u t := fun u t hu ht hm hreturn => hnot ⟨u, t, hu, ht, hm, hreturn⟩
  induction hn : l.length using Nat.strong_induction_on generalizing v l with
  | _ n ih =>
    have hmono : ∀ u t, ClosedTrail src dst u t → t.length < n → (∃ e ∈ t, src e ≠ a) →
        ∀ b ∈ t, ∀ c ∈ t, label b = label c := by
      intro u t ht hlt hleaves b hb c hc
      by_contra hbc
      exact ih t.length hlt ht ⟨b, hb, c, hc, hbc⟩ hleaves rfl
    -- start at a vertex other than `a`
    obtain ⟨e, he, hsrc⟩ := hleaves
    obtain ⟨l₁, l₂, rfl⟩ := List.append_of_mem he
    obtain ⟨w, ht⟩ := h.rotate
    obtain rfl : src e = w := ht.walk.1
    have hmixed' := hmixed.perm (List.perm_append_comm : (l₁ ++ e :: l₂).Perm (e :: l₂ ++ l₁))
    obtain ⟨t₁, t₂, heq, hlen, hne, ht₁, ht₂⟩ := ht.exists_split (hnone _ _ hsrc ht hmixed')
    rw [heq] at ht hmixed'
    have hsum : (t₁ ++ t₂).length = n := by
      rw [← heq, List.length_append, ← hn, List.length_append, Nat.add_comm]
    have hsum' : t₁.length + t₂.length = n := by rwa [List.length_append] at hsum
    have hpos₂ : 0 < t₂.length := List.length_pos_of_ne_nil hne
    have hne₁ : t₁ ≠ [] := by
      rintro rfl
      simp at hlen
    have hleaves : ∀ t, t ≠ [] → ClosedTrail src dst (src e) t → ∃ c ∈ t, src c ≠ a := by
      intro t hne ht
      obtain ⟨c, t, rfl⟩ := List.exists_cons_of_ne_nil hne
      exact ⟨c, List.mem_cons_self .., by rwa [ht.walk.1]⟩
    have hone₁ := hmono _ _ ht₁ (by omega) (hleaves _ hne₁ ht₁)
    have hone₂ := hmono _ _ ht₂ (by omega) (hleaves _ hne ht₂)
    -- the two parts have different labels
    have hdiff : ∀ b ∈ t₁, ∀ c ∈ t₂, label b ≠ label c := by
      intro b hb c hc hbc
      have hall : ∀ d ∈ t₁ ++ t₂, label d = label b := by
        intro d hd
        rcases List.mem_append.mp hd with hd | hd
        · exact hone₁ d hd b hb
        · exact (hone₂ d hd c hc).trans hbc.symm
      obtain ⟨d, hd, d', hd', hdd⟩ := hmixed'
      exact hdd ((hall d hd).trans (hall d' hd').symm)
    obtain ⟨k₁, x, rfl⟩ := (List.eq_nil_or_concat' t₁).resolve_left hne₁
    obtain ⟨k₂, y, rfl⟩ := (List.eq_nil_or_concat' t₂).resolve_left hne
    -- both parts come back from `a`
    have hx : src x = a := src_last_eq hnone hmono ht hsum hne fun c hc =>
      hdiff x (by simp) c hc
    obtain ⟨w, ht'⟩ := ht.rotate
    have hsum'' : ((k₂ ++ [y]) ++ (k₁ ++ [x])).length = n := by
      rw [List.length_append, Nat.add_comm, hsum']
    have hy : src y = a := src_last_eq hnone hmono ht' hsum'' hne₁ fun c hc =>
      (hdiff c hc y (by simp)).symm
    -- the second part can come back over the last edge of the first
    obtain ⟨u, hk₂, hsrcy, -⟩ := walk_append.mp ht₂.walk
    obtain ⟨u', -, hsrcx, hdst⟩ := walk_append.mp ht₁.walk
    have hback : ClosedTrail src dst (src e) (k₂ ++ [x]) := by
      refine ⟨List.nodup_append.mpr ⟨(List.nodup_append.mp ht₂.nodup).1, List.nodup_singleton x,
        ?_⟩, walk_append.mpr ⟨u, hk₂, hx.trans (hy.symm.trans hsrcy), hdst⟩⟩
      rintro c hc d hd rfl
      rw [List.mem_singleton] at hd
      exact (List.nodup_append.mp ht.nodup).2.2 x (by simp) c (by simp [hc]) hd.symm
    have hk₂ne : k₂ ≠ [] := by
      rintro rfl
      exact hsrc (hk₂.trans (hsrcy.symm.trans hy))
    obtain ⟨c, k₂, rfl⟩ := List.exists_cons_of_ne_nil hk₂ne
    refine hdiff x (by simp) c (by simp) ?_
    refine hmono _ _ hback ?_ (hleaves _ (by simp) hback) x (by simp) c (by simp)
    simp only [List.length_append, List.length_cons, List.length_nil] at hsum' ⊢
    omega

/-! ## There and back -/

/-- An edge of a walk is its first one or comes after an edge that leads to it. -/
theorem Walk.src_eq (h : Walk src dst u l v) {e : ι} (he : e ∈ l) :
    (∃ t, l = e :: t) ∨ ∃ l₁ g l₂, l = l₁ ++ g :: e :: l₂ ∧ dst g = src e := by
  obtain ⟨l₁, l₂, rfl⟩ := List.append_of_mem he
  rcases List.eq_nil_or_concat' l₁ with rfl | ⟨l₁, g, rfl⟩
  · exact .inl ⟨l₂, rfl⟩
  · obtain ⟨w, hwalk, hsrc, -⟩ := walk_append.mp h
    obtain ⟨_, -, -, hdst⟩ := walk_append.mp hwalk
    exact .inr ⟨l₁, g, l₂, by simp, hdst.trans hsrc.symm⟩

/-- Edges of a list that enters no vertex twice are equal when they enter the same. -/
theorem eq_of_dst_eq (hnodup : (l.map dst).Nodup) {e f : ι} (he : e ∈ l) (hf : f ∈ l)
    (h : dst e = dst f) : e = f := List.inj_on_of_nodup_map hnodup he hf h

/-- A closed walk that enters no vertex twice, and that starts with an edge that another edge of it
    leads back over. -/
theorem eq_pair_of_head {e f : ι} {t : List ι} (h : Walk src dst v (e :: t) v)
    (hnodup : ((e :: t).map dst).Nodup) (hf : f ∈ t) (hthere : src f = dst e)
    (hback : dst f = src e) : t = [f] := by
  obtain ⟨rfl, hrest⟩ := h
  rcases hrest.src_eq hf with ⟨t, rfl⟩ | ⟨t₁, g, t₂, rfl, hg⟩
  · -- the walk is back after `f`, so it has no more edges
    rcases List.eq_nil_or_concat' t with rfl | ⟨t, x, rfl⟩
    · rfl
    · rw [← List.cons_append] at hrest
      obtain ⟨_, -, -, hx⟩ := walk_append.mp hrest
      have hfx : f = x := eq_of_dst_eq hnodup (by simp) (by simp) (hback.trans hx.symm)
      subst hfx
      simp at hnodup
  · have hge : g = e := eq_of_dst_eq hnodup (by simp) (by simp) (hg.trans hthere)
    subst hge
    simp at hnodup

/-- A closed walk that enters no vertex twice and goes there and back has two edges. -/
theorem eq_pair_of_there_and_back {e f : ι} (h : Walk src dst v l v) (hnodup : (l.map dst).Nodup)
    (he : e ∈ l) (hf : f ∈ l) (hne : e ≠ f) (hthere : src f = dst e) (hback : dst f = src e) :
    l = [e, f] ∨ l = [f, e] := by
  obtain ⟨l₁, l₂, rfl⟩ := List.append_of_mem he
  have htrail : ClosedTrail src dst v (l₁ ++ e :: l₂) := ⟨hnodup.of_map, h⟩
  obtain ⟨u, hrot⟩ := htrail.rotate
  have hperm : (l₁ ++ e :: l₂).Perm (e :: (l₂ ++ l₁)) := List.perm_append_comm
  have hf' : f ∈ l₂ ++ l₁ := List.mem_of_ne_of_mem hne.symm (hperm.subset hf)
  have hpair : l₂ ++ l₁ = [f] :=
    eq_pair_of_head hrot.walk ((hperm.map dst).nodup_iff.mp hnodup) hf' hthere hback
  rcases List.append_eq_singleton_iff.mp hpair with ⟨rfl, rfl⟩ | ⟨rfl, rfl⟩
  · exact .inr rfl
  · exact .inl rfl

end MevScout.Trail
