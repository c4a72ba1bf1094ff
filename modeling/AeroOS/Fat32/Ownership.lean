import AeroOS.Fat32.Table

/-!
# FAT32: who owns which chain

A set of heads owns its chains when no chain has a free cluster or a cluster
twice and no two chains meet (`ChainsOk`).  The table edits of the code keep
this:

* `ChainsOk.alloc`: a free cluster becomes a chain of its own;
* `ChainsOk.link`: a free cluster is hung behind the last cluster of a chain;
* `ChainsOk.free`: a chain is freed and its head given up;
* `ChainsOk.cut`: a chain is ended early and the rest of it freed.

Each says what became of the chain it is about and that the others stay.

`extendChain_spec` puts the first two together for the loop in `write`.
-/

namespace AeroOS.Fat32

variable {g : Geometry} {fat fat' : Nat → Nat} {H H' : Nat → Prop}

/-- The chains of the heads in `H` have no free cluster and no cluster twice,
and do not meet.  Head 0 stands for no chain. -/
structure ChainsOk (g : Geometry) (fat : Nat → Nat) (H : Nat → Prop) : Prop where
  valid : ∀ h, H h → h = 0 ∨ g.validCluster h = true
  nodup : ∀ h, H h → (chainOf g fat h).Nodup
  alloc : ∀ h, H h → ∀ x ∈ chainOf g fat h, fat x ≠ 0
  disj : ∀ h h', H h → H h' → h ≠ h' → ∀ x ∈ chainOf g fat h, x ∉ chainOf g fat h'

namespace ChainsOk

/-- Fewer heads, or head 0 besides. -/
theorem mono (hk : ChainsOk g fat H) (h : ∀ x, H' x → x = 0 ∨ H x) : ChainsOk g fat H' where
  valid x hx := (h x hx).elim Or.inl (hk.valid x)
  nodup x hx := by
    rcases h x hx with rfl | hx
    · simp
    · exact hk.nodup x hx
  alloc x hx := by
    rcases h x hx with rfl | hx
    · simp
    · exact hk.alloc x hx
  disj x y hx hy hne := by
    rcases h x hx with rfl | hx
    · simp
    rcases h y hy with rfl | hy
    · simp
    exact hk.disj x y hx hy hne

/-- A free cluster is on no chain. -/
theorem not_mem_of_free (hk : ChainsOk g fat H) {c h : Nat} (hc : fat c = 0) (hh : H h) :
    c ∉ chainOf g fat h := fun hmem => hk.alloc h hh c hmem hc

/-- A free cluster is no head. -/
theorem not_head_of_free (hk : ChainsOk g fat H) {c : Nat} (hv : g.validCluster c = true)
    (hc : fat c = 0) : ¬ H c := fun hh => hk.not_mem_of_free hc hh (mem_chainOf_self hv)

/-- A table that is the same on the chains keeps them. -/
theorem congr (hk : ChainsOk g fat H)
    (h : ∀ x, H x → ∀ y ∈ chainOf g fat x, fat' y = fat y) : ChainsOk g fat' H where
  valid := hk.valid
  nodup x hx := by
    rw [chainOf_congr (h x hx)]
    exact hk.nodup x hx
  alloc x hx y hy := by
    rw [chainOf_congr (h x hx)] at hy
    rw [h x hx y hy]
    exact hk.alloc x hx y hy
  disj x y hx hy hne z hz := by
    rw [chainOf_congr (h x hx)] at hz
    rw [chainOf_congr (h y hy)]
    exact hk.disj x y hx hy hne z hz

/-- A head with a chain that meets no other joins. -/
theorem insert (hk : ChainsOk g fat H) {c : Nat} (hv : g.validCluster c = true)
    (hnd : (chainOf g fat c).Nodup) (hal : ∀ x ∈ chainOf g fat c, fat x ≠ 0)
    (hdj : ∀ h, H h → h ≠ c → ∀ x ∈ chainOf g fat h, x ∉ chainOf g fat c) :
    ChainsOk g fat fun h => H h ∨ h = c where
  valid h hh := by
    rcases hh with hh | rfl
    · exact hk.valid h hh
    · exact Or.inr hv
  nodup h hh := by
    rcases hh with hh | rfl
    · exact hk.nodup h hh
    · exact hnd
  alloc h hh := by
    rcases hh with hh | rfl
    · exact hk.alloc h hh
    · exact hal
  disj h h' hh hh' hne x hx hx' := by
    rcases hh with hh | rfl
    · rcases hh' with hh' | rfl
      · exact hk.disj h h' hh hh' hne x hx hx'
      · exact hdj h hh hne x hx hx'
    · rcases hh' with hh' | rfl
      · exact hdj h' hh' (Ne.symm hne) x hx' hx
      · exact hne rfl

/-! ## The four edits -/

/-- A free cluster marked as an end is a chain of its own. -/
theorem alloc_head (hk : ChainsOk g fat H) {c : Nat} (hv : g.validCluster c = true)
    (hc : fat c = 0) (hsame : ∀ x, x ≠ c → fat' x = fat x) (hnew : fat' c = fatEoc) :
    (∀ h, H h → chainOf g fat' h = chainOf g fat h) ∧
      ChainsOk g fat' fun h => H h ∨ h = c := by
  have hcongr : ∀ h, H h → ∀ y ∈ chainOf g fat h, fat' y = fat y := fun h hh y hy =>
    hsame y fun heq => hk.not_mem_of_free hc hh (heq ▸ hy)
  have hsingle := chainOf_singleton hv hnew
  refine ⟨fun h hh => chainOf_congr (hcongr h hh), (hk.congr hcongr).insert hv ?_ ?_ ?_⟩
  · simp [hsingle]
  · simp [hsingle, hnew, fatEoc]
  · intro h hh _ x hx hxc
    rw [hsingle, List.mem_singleton] at hxc
    rw [chainOf_congr (hcongr h hh), hxc] at hx
    exact hk.not_mem_of_free hc hh hx

/-- A free cluster hung behind a chain. -/
theorem link (hk : ChainsOk g fat H) {f last c : Nat} (hf : H f)
    (hgl : (chainOf g fat f).getLast? = some last) (hv : g.validCluster c = true)
    (hc : fat c = 0) (hsame : ∀ x, x ≠ last → x ≠ c → fat' x = fat x) (hlast : fat' last = c)
    (hnew : fat' c = fatEoc) :
    chainOf g fat' f = chainOf g fat f ++ [c] ∧
      (∀ h, H h → h ≠ f → chainOf g fat' h = chainOf g fat h) ∧ ChainsOk g fat' H := by
  have hlmem : last ∈ chainOf g fat f := List.mem_of_getLast? hgl
  have hne : ∀ h, H h → ∀ y ∈ chainOf g fat h, y ≠ c := fun h hh y hy heq =>
    hk.not_mem_of_free hc hh (heq ▸ hy)
  have hchain : chainOf g fat' f = chainOf g fat f ++ [c] :=
    chainOf_link (fun y hy hyl => hsame y hyl (hne f hf y hy)) hlast hnew hv hgl (hk.nodup f hf)
  have hother : ∀ h, H h → h ≠ f → ∀ y ∈ chainOf g fat h, fat' y = fat y := by
    intro h hh hhf y hy
    refine hsame y ?_ (hne h hh y hy)
    rintro rfl
    exact hk.disj h f hh hf hhf y hy hlmem
  have hchain' : ∀ h, H h → h ≠ f → chainOf g fat' h = chainOf g fat h := fun h hh hhf =>
    chainOf_congr (hother h hh hhf)
  have hc0 : c ≠ 0 := by
    have := (Geometry.validCluster_iff.mp hv).1
    omega
  refine ⟨hchain, hchain', hk.valid, ?_, ?_, ?_⟩
  · intro h hh
    by_cases hhf : h = f
    · rw [hhf, hchain]
      refine List.nodup_append.mpr ⟨hk.nodup f hf, by simp, ?_⟩
      intro a ha b hb
      rw [List.mem_singleton.mp hb]
      exact hne f hf a ha
    · rw [hchain' h hh hhf]
      exact hk.nodup h hh
  · intro h hh x hx
    by_cases hxl : x = last
    · rw [hxl, hlast]
      exact hc0
    by_cases hxc : x = c
    · rw [hxc, hnew]
      decide
    rw [hsame x hxl hxc]
    by_cases hhf : h = f
    · rw [hhf, hchain] at hx
      rcases List.mem_append.mp hx with hx | hx
      · exact hk.alloc f hf x hx
      · exact absurd (List.mem_singleton.mp hx) hxc
    · rw [hchain' h hh hhf] at hx
      exact hk.alloc h hh x hx
  · have key : ∀ h, H h → h ≠ f → ∀ x ∈ chainOf g fat' h, x ∉ chainOf g fat' f := by
      intro h hh hhf x hx hx'
      rw [hchain' h hh hhf] at hx
      rw [hchain] at hx'
      rcases List.mem_append.mp hx' with hx' | hx'
      · exact hk.disj h f hh hf hhf x hx hx'
      · exact hne h hh x hx (List.mem_singleton.mp hx')
    intro h h' hh hh' hhh' x hx hx'
    by_cases hhf : h = f
    · exact key h' hh' (fun heq => hhh' (hhf.trans heq.symm)) x hx' (hhf ▸ hx)
    by_cases hhf' : h' = f
    · exact key h hh hhf x hx (hhf' ▸ hx')
    rw [hchain' h hh hhf] at hx
    rw [hchain' h' hh' hhf'] at hx'
    exact hk.disj h h' hh hh' hhh' x hx hx'

/-- A chain freed and its head given up. -/
theorem free (hk : ChainsOk g fat H) {f : Nat} (hf : H f)
    (hfree : ∀ x, x ∉ chainOf g fat f → fat' x = fat x) :
    (∀ h, H h → h ≠ f → chainOf g fat' h = chainOf g fat h) ∧
      ChainsOk g fat' fun h => H h ∧ h ≠ f := by
  have hother : ∀ h, H h ∧ h ≠ f → ∀ y ∈ chainOf g fat h, fat' y = fat y := fun h hh y hy =>
    hfree y (hk.disj h f hh.1 hf hh.2 y hy)
  refine ⟨fun h hh hhf => chainOf_congr (hother h ⟨hh, hhf⟩), ?_⟩
  have hless : ChainsOk g fat fun h => H h ∧ h ≠ f := hk.mono fun x hx => Or.inr hx.1
  exact hless.congr hother

/-- A chain ended behind its first `k` clusters. -/
theorem cut (hk : ChainsOk g fat H) {f k last : Nat} (hf : H f) (hkpos : 0 < k)
    (hgl : ((chainOf g fat f).take k).getLast? = some last)
    (hlast : fat' last = fatEoc) (hsame : ∀ x ∈ (chainOf g fat f).take k, x ≠ last → fat' x = fat x)
    (hother : ∀ x, x ∉ chainOf g fat f → fat' x = fat x) :
    chainOf g fat' f = (chainOf g fat f).take k ∧
      (∀ h, H h → h ≠ f → chainOf g fat' h = chainOf g fat h) ∧ ChainsOk g fat' H := by
  have hchain := chainOf_cut hkpos (hk.nodup f hf) hgl hlast hsame
  have hsub : ∀ x ∈ chainOf g fat' f, x ∈ chainOf g fat f := fun x hx =>
    List.mem_of_mem_take (hchain ▸ hx)
  have hcongr : ∀ h, H h → h ≠ f → ∀ y ∈ chainOf g fat h, fat' y = fat y := fun h hh hhf y hy =>
    hother y (hk.disj h f hh hf hhf y hy)
  have hchain' : ∀ h, H h → h ≠ f → chainOf g fat' h = chainOf g fat h := fun h hh hhf =>
    chainOf_congr (hcongr h hh hhf)
  refine ⟨hchain, hchain', hk.valid, ?_, ?_, ?_⟩
  · intro h hh
    by_cases hhf : h = f
    · rw [hhf, hchain]
      exact (hk.nodup f hf).sublist (List.take_sublist _ _)
    · rw [hchain' h hh hhf]
      exact hk.nodup h hh
  · intro h hh x hx
    by_cases hhf : h = f
    · by_cases hxl : x = last
      · rw [hxl, hlast]
        decide
      · rw [hhf] at hx
        rw [hsame x (hchain ▸ hx) hxl]
        exact hk.alloc f hf x (hsub x hx)
    · rw [hchain' h hh hhf] at hx
      rw [hcongr h hh hhf x hx]
      exact hk.alloc h hh x hx
  · intro h h' hh hh' hhh' x hx hx'
    have hin : ∀ e, H e → x ∈ chainOf g fat' e → x ∈ chainOf g fat e := by
      intro e he hxe
      by_cases hef : e = f
      · exact hef ▸ hsub x (hef ▸ hxe)
      · exact hchain' e he hef ▸ hxe
    exact hk.disj h h' hh hh' hhh' x (hin h hh hx) (hin h' hh' hx')

end ChainsOk

/-! ## The allocation loop of `write` -/

/-- The state `s'` has `news` behind the chain of inode `id`, whose head goes
from `f` to `f'`, and is like `s` otherwise.  `H` are the heads in use. -/
structure Extended (H : Nat → Prop) (s s' : Fat32) (id f f' : Nat) (news : List Nat) : Prop where
  geo : s'.geo = s.geo
  disk : s'.disk = s.disk
  chain : s'.clusterChain f' = s.clusterChain f ++ news
  others : ∀ h, H h → h ≠ f → s'.clusterChain h = s.clusterChain h
  ok : ChainsOk s'.geo s'.fatCache fun h => H h ∨ h = f'
  wasFree : ∀ c ∈ news, s.fatCache c = 0 ∧ s.geo.validCluster c = true
  free_of : ∀ x, s'.fatCache x = 0 → s.fatCache x = 0
  words : Words s → Words s'
  head : (f' = f ∧ s'.inodes = s.inodes) ∨
    (f = 0 ∧ f' ∈ news ∧ s'.inodes = s.inodes.modify id fun i => { i with firstCluster := f' })

theorem Extended.refl {H : Nat → Prop} {s : Fat32} (hk : ChainsOk s.geo s.fatCache H)
    {id f : Nat} (hf : H f) : Extended H s s id f f [] where
  geo := rfl
  disk := rfl
  chain := (List.append_nil _).symm
  others _ _ _ := rfl
  ok := hk.mono fun _ hx => Or.inr (hx.elim (fun h => h) fun h => h ▸ hf)
  wasFree _ hc := absurd hc List.not_mem_nil
  free_of _ h := h
  words h := h
  head := Or.inl ⟨rfl, rfl⟩

theorem Extended.trans {H : Nat → Prop} {s s' s'' : Fat32} {id f f' f'' : Nat}
    {news news' : List Nat} (hk : ChainsOk s.geo s.fatCache H)
    (h : Extended H s s' id f f' news)
    (h' : Extended (fun h => H h ∨ h = f') s' s'' id f' f'' news') :
    Extended H s s'' id f f'' (news ++ news') where
  geo := h'.geo.trans h.geo
  disk := h'.disk.trans h.disk
  chain := by rw [h'.chain, h.chain, List.append_assoc]
  others x hx hxf := by
    have hxf' : x ≠ f' := by
      rintro rfl
      rcases h.head with ⟨heq, -⟩ | ⟨-, hmem, -⟩
      · exact hxf heq
      · -- a cluster that was free was nobody's head
        have hfree := h.wasFree x hmem
        exact hk.not_head_of_free hfree.2 hfree.1 hx
    rw [h'.others x (Or.inl hx) hxf', h.others x hx hxf]
  ok := h'.ok.mono fun x hx => Or.inr (by
    rcases hx with hx | hx
    · exact Or.inl (Or.inl hx)
    · exact Or.inr hx)
  wasFree c hc := by
    rcases List.mem_append.mp hc with hc | hc
    · exact h.wasFree c hc
    · have hfree := h'.wasFree c hc
      exact ⟨h.free_of c hfree.1, h.geo ▸ hfree.2⟩
  free_of x hx := h.free_of x (h'.free_of x hx)
  words hw := h'.words (h.words hw)
  head := by
    rcases h.head with ⟨heq, hino⟩ | ⟨h0, hmem, hino⟩
    · rcases h'.head with ⟨heq', hino'⟩ | ⟨h0', hmem', hino'⟩
      · exact Or.inl ⟨heq'.trans heq, hino'.trans hino⟩
      · refine Or.inr ⟨heq ▸ h0', List.mem_append_right _ hmem', ?_⟩
        rw [hino', hino]
    · rcases h'.head with ⟨heq', hino'⟩ | ⟨h0', -, -⟩
      · refine Or.inr ⟨h0, List.mem_append_left _ (heq' ▸ hmem), ?_⟩
        rw [hino', hino, heq']
      · have := (Geometry.validCluster_iff.mp (h.wasFree f' hmem).2).1
        omega

/-- One turn of the loop. -/
theorem Extended.single {H : Nat → Prop} {s s₁ : Fat32} (hk : ChainsOk s.geo s.fatCache H)
    {f c : Nat} (hf : H f) (ha : s.allocCluster = some (c, s₁)) (id : Nat) :
    (s.clusterChain f = [] → Extended H s (s₁.setFirstCluster id c) id f c [c]) ∧
      ∀ last, (s.clusterChain f).getLast? = some last →
        Extended H s (s₁.setFat last c) id f f [c] := by
  obtain ⟨hv, hc, rfl⟩ := allocCluster_spec ha
  have hfree : ∀ x ∈ [c], s.fatCache x = 0 ∧ s.geo.validCluster x = true := by
    intro x hx
    rw [List.mem_singleton.mp hx]
    exact ⟨hc, hv⟩
  constructor
  · intro hnil
    obtain ⟨hsame, hok⟩ := hk.alloc_head hv hc
      (fun x hx => setFat_of_ne s c fatEoc hx) (setFat_self s c fatEoc)
    have hf0 : f = 0 := by
      rcases hk.valid f hf with h | h
      · exact h
      · exact absurd hnil (chainOf_ne_nil_iff.mpr h)
    refine ⟨rfl, rfl, ?_, fun h hh _ => hsame h hh, hok, hfree, ?_,
      fun hw => hw.setFat c (by decide), ?_⟩
    · rw [hnil]
      exact chainOf_singleton hv (setFat_self s c fatEoc)
    · intro x hx
      by_cases hxc : x = c
      · rw [hxc]
        exact hc
      · exact (setFat_of_ne s c fatEoc hxc).symm.trans hx
    · exact Or.inr ⟨hf0, by simp, rfl⟩
  · intro last hgl
    have hlc : c ≠ last := by
      rintro rfl
      exact hk.not_mem_of_free hc hf (List.mem_of_getLast? hgl)
    obtain ⟨hchain, hother, hok⟩ := hk.link hf hgl hv hc
      (fun x h1 h2 => (setFat_of_ne _ last c h1).trans (setFat_of_ne s c fatEoc h2))
      (setFat_self _ last c) ((setFat_of_ne _ last c hlc).trans (setFat_self s c fatEoc))
    refine ⟨rfl, rfl, hchain, hother, ?_, hfree, ?_,
      fun hw => (hw.setFat c (by decide)).setFat last (Geometry.validCluster_lt hv),
      Or.inl ⟨rfl, rfl⟩⟩
    · exact hok.mono fun x hx => Or.inr (hx.elim (fun h => h) fun h => h ▸ hf)
    · intro x hx
      by_cases hxl : x = last
      · rw [hxl, setFat_self] at hx
        have := (Geometry.validCluster_iff.mp hv).1
        omega
      by_cases hxc : x = c
      · rw [hxc]
        exact hc
      · rwa [setFat_of_ne _ last c hxl, setFat_of_ne s c fatEoc hxc] at hx

/-- What the loop leaves behind, whether it got all its clusters or not. -/
theorem extendChain_spec {n : Nat} {H : Nat → Prop} {s s' : Fat32} {id : Nat}
    {inode : FatInode} {r : Except String (FatInode × List Nat)}
    (hk : ChainsOk s.geo s.fatCache H) (hf : H inode.firstCluster)
    (h : extendChain id n s inode (s.clusterChain inode.firstCluster) = (r, s')) :
    ∃ f' news, Extended H s s' id inode.firstCluster f' news ∧
      ∀ inode' chain', r = .ok (inode', chain') →
        inode' = { inode with firstCluster := f' } ∧ chain' = s'.clusterChain f' ∧
          news.length = n := by
  induction n generalizing H s inode with
  | zero =>
    rw [extendChain] at h
    obtain ⟨rfl, rfl⟩ := Prod.mk.inj h
    refine ⟨_, [], Extended.refl hk hf, fun inode' chain' hr => ?_⟩
    cases hr
    exact ⟨rfl, rfl, rfl⟩
  | succ n ih =>
    rw [extendChain] at h
    cases ha : s.allocCluster with
    | none =>
      rw [ha] at h
      obtain ⟨rfl, rfl⟩ := Prod.mk.inj h
      exact ⟨_, [], Extended.refl hk hf, fun inode' chain' hr => by cases hr⟩
    | some p =>
      obtain ⟨c, s₁⟩ := p
      rw [ha] at h
      have hsingle := Extended.single (c := c) hk hf ha
      cases hgl : (s.clusterChain inode.firstCluster).getLast? with
      | none =>
        rw [hgl] at h
        have hnil' := List.getLast?_eq_none_iff.mp hgl
        have hstep := (hsingle id).1 hnil'
        simp only [hnil', List.nil_append] at h
        have hchain := hstep.chain
        rw [hnil', List.nil_append] at hchain
        rw [← hchain] at h
        obtain ⟨f', news, hext, hr⟩ := ih hstep.ok (Or.inr rfl) h
        refine ⟨f', [c] ++ news, hstep.trans hk hext, fun inode' chain' heq => ?_⟩
        obtain ⟨h1, h2, h3⟩ := hr inode' chain' heq
        exact ⟨h1, h2, by simp [h3]⟩
      | some last =>
        rw [hgl] at h
        have hstep := (hsingle id).2 last hgl
        simp only at h
        rw [← hstep.chain] at h
        obtain ⟨f', news, hext, hr⟩ := ih hstep.ok (Or.inl hf) h
        refine ⟨f', [c] ++ news, hstep.trans hk hext, fun inode' chain' heq => ?_⟩
        obtain ⟨h1, h2, h3⟩ := hr inode' chain' heq
        exact ⟨h1, h2, by simp [h3]⟩

end AeroOS.Fat32
