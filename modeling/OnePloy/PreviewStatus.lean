import OnePloy.Lib.LastWrite
import OnePloy.DatabaseStatus

/-!
# The status of a preview, pulled and pushed

The containers of an application are collected and reduced to one status, in
whatever order they come. Those of a preview are not collected: both loops
write the status of each container to the preview as they come across it, and
the last one stays. It is the same for every order exactly where all containers
of the preview have the same status (`status_of_containers_iff`).
-/

namespace OnePloy

open Php Conc

/-! ## Previews and their containers -/

/-- `coolify.applicationId` and `coolify.pullRequestId`. -/
structure PreviewLabels where
  applicationId : String
  pullRequestId : String
  deriving DecidableEq

structure ApplicationPreview where
  id : Nat
  applicationId : Nat
  pullRequestId : Nat
  status : String
  /-- 0 is the application itself. -/
  pullRequest_ne : pullRequestId ≠ 0
  deriving DecidableEq

namespace ApplicationPreview

/-- The two labels of its containers. -/
def labels (p : ApplicationPreview) : PreviewLabels :=
  ⟨toString p.applicationId, toString p.pullRequestId⟩

/-- The key of `previewsByKey`. -/
def key (p : ApplicationPreview) : String := p.labels.applicationId ++ ":" ++ p.labels.pullRequestId

def setStatus (p : ApplicationPreview) (status : String) : ApplicationPreview :=
  { p with status := status }

def isExited (p : ApplicationPreview) : Bool := strStartsWith p.status "exited"

/-- No container of the preview was seen. -/
def unseen (p : ApplicationPreview) : ApplicationPreview :=
  if p.isExited then p else p.setStatus "exited"

@[simp] theorem setStatus_id (p : ApplicationPreview) (status : String) :
    (p.setStatus status).id = p.id := rfl

@[simp] theorem setStatus_labels (p : ApplicationPreview) (status : String) :
    (p.setStatus status).labels = p.labels := rfl

@[simp] theorem setStatus_key (p : ApplicationPreview) (status : String) :
    (p.setStatus status).key = p.key := rfl

@[simp] theorem unseen_id (p : ApplicationPreview) : p.unseen.id = p.id := by
  unfold unseen
  split <;> rfl

@[simp] theorem unseen_key (p : ApplicationPreview) : p.unseen.key = p.key := by
  unfold unseen
  split <;> rfl

theorem unseen_status (p : ApplicationPreview) :
    p.unseen.status = if p.isExited then p.status else "exited" := by
  unfold unseen
  split <;> rfl

theorem unseen_unseen (p : ApplicationPreview) : p.unseen.unseen = p.unseen := by
  by_cases h : p.isExited = true
  · have hself : p.unseen = p := by rw [unseen, if_pos h]
    rw [hself, hself]
  · have hexited : p.unseen.isExited = true := by
      rw [unseen, if_neg h]
      exact strStartsWith_iff.mpr (List.prefix_refl _)
    rw [unseen, if_pos hexited]

end ApplicationPreview

/-- The previews of a server: one for each pull request of an application. -/
structure ServerPreviews where
  rows : List ApplicationPreview
  ids : (rows.map (·.id)).Nodup
  pullRequests : (rows.map fun p => (p.applicationId, p.pullRequestId)).Nodup

/-- A container with the label of its pull request. `defaultLabels` writes the
labels of an application together, the ids as they print. -/
structure DeployedContainer extends ServerContainer where
  pullRequestId : Option String
  labelled : ∀ id, labels.applicationId = some id →
    labels.managed = true ∧ (∃ n : Nat, n ≠ 0 ∧ id = toString n) ∧
      ∃ n : Nat, pullRequestId = some (toString n)

namespace DeployedContainer

/-- The application and the pull request under which the pull looks for a preview. -/
def pulledPreview (c : DeployedContainer) : Option PreviewLabels :=
  if c.isOneoff || !truthyLabel c.labels.applicationId || !truthyLabel c.pullRequestId then none
  else
    c.labels.applicationId.bind fun applicationId =>
      c.pullRequestId.map fun pullRequestId => ⟨(explodeOnce '-' applicationId).1, pullRequestId⟩

/-- The key under which the push looks for a preview. -/
def pushedPreview (c : DeployedContainer) : Option String :=
  if !c.labels.managed || c.isOneoff then none
  else
    c.labels.applicationId.bind fun applicationId =>
      let pullRequestId := c.pullRequestId.getD "0"
      if pullRequestId = "0" then none else some (applicationId ++ ":" ++ pullRequestId)

/-- One of the containers that make up the preview; a one-off command is none. -/
structure IsOf (c : DeployedContainer) (p : ApplicationPreview) : Prop where
  lasting : c.isOneoff = false
  application : c.labels.applicationId = some p.labels.applicationId
  pullRequest : c.pullRequestId = some p.labels.pullRequestId

instance (c : DeployedContainer) (p : ApplicationPreview) : Decidable (c.IsOf p) :=
  decidable_of_iff (c.isOneoff = false ∧ c.labels.applicationId = some p.labels.applicationId ∧
    c.pullRequestId = some p.labels.pullRequestId)
    ⟨fun h => ⟨h.1, h.2.1, h.2.2⟩, fun h => ⟨h.lasting, h.application, h.pullRequest⟩⟩

def IsHealthy (c : DeployedContainer) : Prop := c.report = (.running, some .healthy)

end DeployedContainer

/-! ## GetContainersStatus -/

/-- What the loop over the containers keeps. -/
structure PreviewPull where
  previews : List ApplicationPreview
  foundApplicationPreviews : List Nat

namespace PreviewPull

def turn (s : PreviewPull) (c : DeployedContainer) : PreviewPull :=
  c.pulledPreview.elim s fun labels =>
    (s.previews.find? (·.labels == labels)).elim s fun p =>
      { previews := modifyFirst (·.labels == labels) (·.setStatus c.pulledStatus) s.previews
        foundApplicationPreviews := s.foundApplicationPreviews ++ [p.id] }

end PreviewPull

/-- `GetContainersStatus::handle`, as far as it is about previews. -/
def pullPreviews (previews : List ApplicationPreview) (containers : List DeployedContainer) :
    List ApplicationPreview :=
  let s := containers.foldl PreviewPull.turn (PreviewPull.mk previews [])
  let notRunningApplicationPreviews :=
    (previews.map (·.id)).filter fun id => !s.foundApplicationPreviews.contains id
  if containers.isEmpty then s.previews
  else
    notRunningApplicationPreviews.foldl
      (fun ps id => modifyFirst (·.id == id) ApplicationPreview.unseen ps) s.previews

/-! ## PushServerUpdateJob -/

structure PreviewPush where
  previews : List ApplicationPreview
  foundApplicationPreviewsIds : List String

namespace PreviewPush

/-- `updateApplicationPreviewStatus`: `previewsByKey` holds one preview for each key. -/
def updateApplicationPreviewStatus (previews : List ApplicationPreview) (key : String)
    (containerStatus : String) : List ApplicationPreview :=
  modifyFirst (·.key == key) (·.setStatus containerStatus) previews

def turn (s : PreviewPush) (c : DeployedContainer) : PreviewPush :=
  c.pushedPreview.elim s fun key =>
    { previews := updateApplicationPreviewStatus s.previews key c.pushedStatus
      foundApplicationPreviewsIds :=
        if s.previews.any (·.key == key) then s.foundApplicationPreviewsIds ++ [key]
        else s.foundApplicationPreviewsIds }

end PreviewPush

/-- `PushServerUpdateJob::handle`, as far as it is about previews, with a
complete snapshot. -/
def pushPreviews (previews : List ApplicationPreview) (containers : List DeployedContainer) :
    List ApplicationPreview :=
  let s := containers.foldl PreviewPush.turn (PreviewPush.mk previews [])
  let notFoundApplicationPreviewsIds :=
    (previews.map (·.key)).filter fun key => !s.foundApplicationPreviewsIds.contains key
  notFoundApplicationPreviewsIds.foldl
    (fun ps key => modifyFirst (·.key == key) ApplicationPreview.unseen ps) s.previews

/-! ## What they should come to -/

/-- The status of the preview with this id. -/
def statusOf (previews : List ApplicationPreview) (id : Nat) : Option String :=
  (previews.find? (·.id == id)).map (·.status)

/-- What one way of updating does for a preview: the order of the containers does
not matter, and the preview is healthy only if all its containers are. -/
structure StatusOfAll (update : List DeployedContainer → List ApplicationPreview)
    (containers : List DeployedContainer) (p : ApplicationPreview) : Prop where
  order : ∀ containers', containers.Perm containers' →
    statusOf (update containers') p.id = statusOf (update containers) p.id
  healthy : statusOf (update containers) p.id = some "running:healthy" →
    ∀ c ∈ containers, c.IsOf p → c.IsHealthy

/-! ## Labels -/

theorem not_mem_toString {c : Char} (hc : c.isDigit = false) (n : Nat) :
    c ∉ (toString n).toList := by
  intro h
  rw [show (toString n : String).toList = Nat.toDigits 10 n from Nat.toList_repr] at h
  rw [isDigit_of_mem_toDigits h] at hc
  cases hc

theorem toString_injective {m n : Nat} (h : toString m = toString n) : m = n := by
  have hlist := congrArg String.toList h
  rw [show (toString m : String).toList = Nat.toDigits 10 m from Nat.toList_repr,
    show (toString n : String).toList = Nat.toDigits 10 n from Nat.toList_repr] at hlist
  exact toDigits_injective hlist

theorem truthyLabel_toString (n : Nat) : truthyLabel (some (toString n)) = decide (n ≠ 0) := by
  have hne : toString n ≠ "" := by
    intro h
    have hlist := congrArg String.toList h
    rw [show (toString n : String).toList = Nat.toDigits 10 n from Nat.toList_repr] at hlist
    exact Nat.toDigits_ne_nil hlist
  have hzero : toString n = "0" ↔ n = 0 :=
    ⟨fun h => toString_injective (n := 0) h, fun h => h ▸ rfl⟩
  rw [truthyLabel, Option.any_some, Value.truthy, Bool.eq_iff_iff, Bool.and_eq_true, bne_iff_ne,
    bne_iff_ne, Ne, Ne, hzero, decide_eq_true_iff]
  exact and_iff_right hne

theorem explodeOnce_toString (n : Nat) : (explodeOnce '-' (toString n)).1 = toString n := by
  have hall : ∀ x ∈ (toString n).toList, decide (x ≠ '-') = true := by
    rintro x hx
    refine decide_eq_true ?_
    rintro rfl
    exact not_mem_toString rfl n hx
  rw [explodeOnce]
  dsimp only
  rw [← List.append_nil (toString n).toList, List.takeWhile_append_of_pos hall, List.takeWhile_nil,
    List.append_nil, String.ofList_toList]

/-- The digits of an application end at the colon. -/
theorem key_inj {a b s t : String} (ha : ':' ∉ a.toList) (hb : ':' ∉ b.toList)
    (h : a ++ ":" ++ s = b ++ ":" ++ t) : a = b ∧ s = t := by
  have hlist := congrArg String.toList h
  simp only [String.toList_append, List.append_assoc] at hlist
  have hsplit : ∀ (x y : List Char), ':' ∉ x →
      (x ++ (":".toList ++ y)).takeWhile (· ≠ ':') = x ∧
        (x ++ (":".toList ++ y)).dropWhile (· ≠ ':') = ':' :: y := by
    intro x y hx
    have hall : ∀ c ∈ x, decide (c ≠ ':') = true := fun c hc =>
      decide_eq_true fun h => hx (h ▸ hc)
    rw [List.takeWhile_append_of_pos hall, List.dropWhile_append_of_pos hall]
    exact ⟨by simp, by simp⟩
  have h₁ := hsplit a.toList s.toList ha
  have h₂ := hsplit b.toList t.toList hb
  rw [hlist] at h₁
  refine ⟨String.toList_injective (h₁.1.symm.trans h₂.1), String.toList_injective ?_⟩
  exact (List.cons.inj (h₁.2.symm.trans h₂.2)).2

namespace DeployedContainer

variable {c : DeployedContainer} {p : ApplicationPreview}

/-- The pull goes by the labels. -/
theorem pulledPreview_eq_some : c.pulledPreview = some p.labels ↔ c.IsOf p := by
  unfold pulledPreview
  constructor
  · intro h
    split at h
    · cases h
    · next hpass =>
      obtain ⟨id, hid, hmap⟩ := Option.bind_eq_some_iff.mp h
      obtain ⟨number, hnumber, hpair⟩ := Option.map_eq_some_iff.mp hmap
      obtain ⟨-, ⟨n, -, rfl⟩, -⟩ := c.labelled id hid
      rw [explodeOnce_toString] at hpair
      simp only [Bool.or_eq_true, not_or, Bool.not_eq_true] at hpass
      exact ⟨hpass.1.1, by rw [hid, ← hpair], by rw [hnumber, ← hpair]⟩
  · rintro ⟨hlasting, hid, hnumber⟩
    obtain ⟨-, ⟨n, hn, hprint⟩, -⟩ := c.labelled _ hid
    have hbefore : (explodeOnce '-' p.labels.applicationId).1 = p.labels.applicationId :=
      explodeOnce_toString p.applicationId
    have hpull : truthyLabel (some p.labels.pullRequestId) = true := by
      rw [ApplicationPreview.labels, truthyLabel_toString]
      exact decide_eq_true p.pullRequest_ne
    have happlication : truthyLabel (some p.labels.applicationId) = true := by
      rw [hprint, truthyLabel_toString]
      exact decide_eq_true hn
    rw [hid, hnumber, hlasting, hpull, happlication, if_neg (by simp), Option.bind_some,
      Option.map_some, hbefore]

/-- The push goes by the key of both. -/
theorem pushedPreview_eq_some : c.pushedPreview = some p.key ↔ c.IsOf p := by
  unfold pushedPreview
  have hzero : p.labels.pullRequestId ≠ "0" := fun h =>
    p.pullRequest_ne (toString_injective (n := 0) h)
  constructor
  · intro h
    split at h
    · cases h
    · next hpass =>
      obtain ⟨id, hid, hkey⟩ := Option.bind_eq_some_iff.mp h
      obtain ⟨-, ⟨n, -, rfl⟩, m, hm⟩ := c.labelled id hid
      rw [hm, Option.getD_some] at hkey
      dsimp only at hkey
      split at hkey
      · cases hkey
      · obtain ⟨hleft, hright⟩ := key_inj (not_mem_toString rfl n)
          (not_mem_toString rfl p.applicationId) (Option.some.inj hkey)
        simp only [Bool.or_eq_true, not_or, Bool.not_eq_true] at hpass
        exact ⟨hpass.2, by rw [hid, hleft]; rfl, by rw [hm, hright]⟩
  · rintro ⟨hlasting, hid, hnumber⟩
    obtain ⟨hmanaged, -, -⟩ := c.labelled _ hid
    rw [hid, hnumber, hlasting, hmanaged, if_neg (by simp), Option.bind_some, Option.getD_some]
    dsimp only
    rw [if_neg hzero]
    rfl

end DeployedContainer

/-! ## The loops -/

/-- What a container sets the status of a preview to. -/
def DeployedContainer.sets (p : ApplicationPreview) (c : DeployedContainer) : Option String :=
  if c.IsOf p then some c.pulledStatus else none

/-- What one container does to one preview. -/
def DeployedContainer.each (c : DeployedContainer) (p : ApplicationPreview) : ApplicationPreview :=
  if c.IsOf p then p.setStatus c.pulledStatus else p

/-- The preview after the loop. -/
def ApplicationPreview.after (cs : List DeployedContainer) (p : ApplicationPreview) :
    ApplicationPreview :=
  p.setStatus (lastWrite (DeployedContainer.sets p) cs p.status)

namespace ApplicationPreview

open DeployedContainer

variable {c : DeployedContainer} {cs : List DeployedContainer} {p q : ApplicationPreview}

theorem isOf_congr (h : p.labels = q.labels) : c.IsOf p ↔ c.IsOf q := by
  constructor
  · rintro ⟨hlasting, happlication, hnumber⟩
    exact ⟨hlasting, h ▸ happlication, h ▸ hnumber⟩
  · rintro ⟨hlasting, happlication, hnumber⟩
    exact ⟨hlasting, h ▸ happlication, h ▸ hnumber⟩

theorem sets_congr (h : p.labels = q.labels) : sets p = sets q := by
  funext c
  simp only [sets, isOf_congr h]

@[simp] theorem each_id : (c.each p).id = p.id := by
  unfold each
  split <;> rfl

@[simp] theorem each_labels : (c.each p).labels = p.labels := by
  unfold each
  split <;> rfl

@[simp] theorem each_key : (c.each p).key = p.key := by
  rw [key, each_labels, ← key]

@[simp] theorem after_id : (p.after cs).id = p.id := rfl

@[simp] theorem after_key : (p.after cs).key = p.key := rfl

theorem after_cons : p.after (c :: cs) = (c.each p).after cs := by
  rw [after, after, lastWrite_cons, sets_congr each_labels, sets]
  unfold each
  split <;> rfl

theorem labels_nodup (previews : ServerPreviews) : (previews.rows.map labels).Nodup := by
  have hmap : previews.rows.map labels =
      (previews.rows.map fun p => (p.applicationId, p.pullRequestId)).map
        fun ids => ⟨toString ids.1, toString ids.2⟩ := by
    rw [List.map_map]
    rfl
  rw [hmap]
  refine previews.pullRequests.map ?_
  rintro ⟨a, b⟩ ⟨a', b'⟩ h
  rw [PreviewLabels.mk.injEq] at h
  rw [Prod.mk.injEq]
  exact ⟨toString_injective h.1, toString_injective h.2⟩

theorem key_nodup (previews : ServerPreviews) : (previews.rows.map key).Nodup := by
  refine List.Nodup.map_on ?_ previews.ids.of_map
  intro p hp q hq h
  obtain ⟨hleft, hright⟩ := key_inj (not_mem_toString rfl p.applicationId)
    (not_mem_toString rfl q.applicationId) h
  have hlabels : p.labels = q.labels := by
    rw [labels, labels, PreviewLabels.mk.injEq]
    exact ⟨hleft, hright⟩
  exact eq_of_tag (labels_nodup previews) hp hq hlabels

end ApplicationPreview

namespace PreviewPull

open ApplicationPreview DeployedContainer

variable {s : PreviewPull} {c : DeployedContainer}

theorem turn_previews (h : (s.previews.map labels).Nodup) (c : DeployedContainer) :
    (turn s c).previews = s.previews.map c.each := by
  have hturn : (turn s c).previews = c.pulledPreview.elim s.previews fun ls =>
      modifyFirst (·.labels == ls) (·.setStatus c.pulledStatus) s.previews := by
    unfold turn
    cases c.pulledPreview with
    | none => rfl
    | some ls =>
        simp only [Option.elim_some]
        cases hfind : s.previews.find? (·.labels == ls) with
        | none => rw [modifyFirst_eq_self (by rw [hfind]; exact nofun), Option.elim_none]
        | some p => rfl
  rw [hturn]
  cases hpull : c.pulledPreview with
  | none =>
      rw [Option.elim_none, List.map_congr_left, List.map_id]
      intro p _
      refine if_neg ?_
      rw [← pulledPreview_eq_some, hpull]
      exact nofun
  | some ls =>
      rw [Option.elim_some, modifyFirst_key h]
      refine List.map_congr_left fun p _ => ?_
      have hof : p.labels = ls ↔ c.IsOf p := by
        rw [← pulledPreview_eq_some, hpull, Option.some_inj, eq_comm]
      simp only [hof, each]

theorem mem_found_turn (hids : (s.previews.map (·.id)).Nodup)
    (hlabels : (s.previews.map labels).Nodup) {p : ApplicationPreview} (hp : p ∈ s.previews)
    (c : DeployedContainer) :
    p.id ∈ (turn s c).foundApplicationPreviews ↔
      p.id ∈ s.foundApplicationPreviews ∨ c.IsOf p := by
  rw [← pulledPreview_eq_some]
  unfold turn
  cases hpull : c.pulledPreview with
  | none => simp
  | some ls =>
      rw [Option.elim_some, Option.some_inj]
      cases hfind : s.previews.find? (·.labels == ls) with
      | none =>
          have hne : ls ≠ p.labels := fun h =>
            List.find?_eq_none.mp hfind p hp (by rw [h, beq_self_eq_true])
          rw [Option.elim_none, or_iff_left hne]
      | some q =>
          have hq : q.labels = ls := by simpa using List.find?_some hfind
          have hmem := List.mem_of_find?_eq_some hfind
          rw [Option.elim_some, List.mem_append, List.mem_singleton]
          refine or_congr_right ⟨fun h => ?_, fun h => ?_⟩
          · rw [← hq, eq_of_tag hids hp hmem h]
          · rw [eq_of_tag hlabels hp hmem (h.symm.trans hq.symm)]

theorem foldl_turn (hids : (s.previews.map (·.id)).Nodup)
    (hlabels : (s.previews.map labels).Nodup) (cs : List DeployedContainer) :
    (cs.foldl turn s).previews = s.previews.map (after cs) ∧
      ∀ p ∈ s.previews, p.id ∈ (cs.foldl turn s).foundApplicationPreviews ↔
        p.id ∈ s.foundApplicationPreviews ∨ ∃ c ∈ cs, c.IsOf p := by
  induction cs generalizing s with
  | nil =>
      refine ⟨?_, fun p _ => by simp⟩
      exact (List.map_id _).symm
  | cons c cs ih =>
      have hturn := turn_previews hlabels c
      have hmap : ∀ {T : Type} (tag : ApplicationPreview → T), (∀ p, tag (c.each p) = tag p) →
          (turn s c).previews.map tag = s.previews.map tag := by
        intro T tag htag
        rw [hturn, List.map_map]
        exact List.map_congr_left fun p _ => htag p
      obtain ⟨ihprev, ihfound⟩ := ih (s := turn s c) (hmap (·.id) (fun _ => each_id) ▸ hids)
        (hmap labels (fun _ => each_labels) ▸ hlabels)
      rw [List.foldl_cons]
      refine ⟨?_, fun p hp => ?_⟩
      · rw [ihprev, hturn, List.map_map]
        exact List.map_congr_left fun p _ => after_cons.symm
      · have heach : c.each p ∈ (turn s c).previews := hturn ▸ List.mem_map_of_mem hp
        have hone := ihfound _ heach
        rw [each_id, mem_found_turn hids hlabels hp] at hone
        rw [hone, List.exists_mem_cons_iff, or_assoc]
        simp only [isOf_congr (each_labels (c := c) (p := p))]

end PreviewPull

namespace PreviewPush

open ApplicationPreview DeployedContainer

variable {s : PreviewPush} {c : DeployedContainer}

theorem turn_previews (h : (s.previews.map key).Nodup) (c : DeployedContainer) :
    (turn s c).previews = s.previews.map c.each := by
  unfold turn updateApplicationPreviewStatus
  cases hpush : c.pushedPreview with
  | none =>
      rw [Option.elim_none, List.map_congr_left, List.map_id]
      intro p _
      refine if_neg ?_
      rw [← pushedPreview_eq_some, hpush]
      exact nofun
  | some k =>
      rw [Option.elim_some]
      dsimp only
      rw [modifyFirst_key h]
      refine List.map_congr_left fun p _ => ?_
      have hof : p.key = k ↔ c.IsOf p := by
        rw [← pushedPreview_eq_some, hpush, Option.some_inj, eq_comm]
      have hstatus : c.pushedStatus = c.pulledStatus := (pulledStatus_eq c.toServerContainer).symm
      simp only [hof, each, hstatus]

theorem mem_found_turn {p : ApplicationPreview} (hp : p ∈ s.previews) (c : DeployedContainer) :
    p.key ∈ (turn s c).foundApplicationPreviewsIds ↔
      p.key ∈ s.foundApplicationPreviewsIds ∨ c.IsOf p := by
  rw [← pushedPreview_eq_some]
  unfold turn
  cases hpush : c.pushedPreview with
  | none => simp
  | some k =>
      rw [Option.elim_some, Option.some_inj]
      dsimp only
      by_cases hany : s.previews.any (·.key == k) = true
      · rw [if_pos hany, List.mem_append, List.mem_singleton, eq_comm (a := k)]
      · have hne : k ≠ p.key := fun h => hany (List.any_eq_true.mpr ⟨p, hp, by simp [h]⟩)
        rw [if_neg hany, or_iff_left hne]

theorem foldl_turn (hkeys : (s.previews.map key).Nodup) (cs : List DeployedContainer) :
    (cs.foldl turn s).previews = s.previews.map (after cs) ∧
      ∀ p ∈ s.previews, p.key ∈ (cs.foldl turn s).foundApplicationPreviewsIds ↔
        p.key ∈ s.foundApplicationPreviewsIds ∨ ∃ c ∈ cs, c.IsOf p := by
  induction cs generalizing s with
  | nil =>
      refine ⟨?_, fun p _ => by simp⟩
      exact (List.map_id _).symm
  | cons c cs ih =>
      have hturn := turn_previews hkeys c
      have hmap : (turn s c).previews.map key = s.previews.map key := by
        rw [hturn, List.map_map]
        exact List.map_congr_left fun p _ => each_key
      obtain ⟨ihprev, ihfound⟩ := ih (s := turn s c) (hmap ▸ hkeys)
      rw [List.foldl_cons]
      refine ⟨?_, fun p hp => ?_⟩
      · rw [ihprev, hturn, List.map_map]
        exact List.map_congr_left fun p _ => after_cons.symm
      · have heach : c.each p ∈ (turn s c).previews := hturn ▸ List.mem_map_of_mem hp
        have hone := ihfound _ heach
        rw [each_key, mem_found_turn hp] at hone
        rw [hone, List.exists_mem_cons_iff, or_assoc]
        simp only [isOf_congr (each_labels (c := c) (p := p))]

end PreviewPush

/-! ## What is stored -/

section Result

open ApplicationPreview DeployedContainer

/-- The status of a preview in the end; `gone` is what it has without containers. -/
def storedStatus (gone : String) (cs : List DeployedContainer) (p : ApplicationPreview) : String :=
  if ∃ c ∈ cs, c.IsOf p then (p.after cs).status else gone

theorem after_of_none {cs : List DeployedContainer} {p : ApplicationPreview}
    (h : ¬ ∃ c ∈ cs, c.IsOf p) : p.after cs = p := by
  rw [after, lastWrite_of_none]
  · rfl
  · exact fun c hc => if_neg fun hof => h ⟨c, hc, hof⟩

theorem statusOf_map {rows : List ApplicationPreview} (hids : (rows.map (·.id)).Nodup)
    {f : ApplicationPreview → ApplicationPreview} (hf : ∀ p, (f p).id = p.id)
    {p : ApplicationPreview} (hp : p ∈ rows) : statusOf (rows.map f) p.id = some (f p).status := by
  rw [statusOf, List.find?_map]
  have hcomp : ((·.id == p.id) ∘ f) = (·.id == p.id) := funext fun q => by
    rw [Function.comp_apply, hf]
  rw [hcomp]
  cases hfind : rows.find? (·.id == p.id) with
  | none => exact absurd (List.find?_eq_none.mp hfind p hp) (by simp)
  | some q =>
      have hq : q.id = p.id := by simpa using List.find?_some hfind
      rw [eq_of_tag hids (List.mem_of_find?_eq_some hfind) hp hq]
      rfl

theorem statusOf_pullPreviews (previews : ServerPreviews) {p : ApplicationPreview}
    (hp : p ∈ previews.rows) (cs : List DeployedContainer) :
    statusOf (pullPreviews previews.rows cs) p.id =
      some (storedStatus (if cs.isEmpty then p.status else p.unseen.status) cs p) := by
  obtain ⟨hprev, hfound⟩ := PreviewPull.foldl_turn (s := PreviewPull.mk previews.rows [])
    previews.ids (labels_nodup previews) cs
  unfold pullPreviews storedStatus
  dsimp only
  rw [hprev]
  by_cases hempty : cs.isEmpty = true
  · have hnone : ¬ ∃ c ∈ cs, c.IsOf p := by
      rw [List.isEmpty_iff.mp hempty]
      simp
    rw [if_pos hempty, if_pos hempty, if_neg hnone]
    rw [statusOf_map (f := after cs) previews.ids (fun _ => rfl) hp, after_of_none hnone]
  · have hafter : ((previews.rows.map (after cs)).map (·.id)).Nodup := by
      rw [List.map_map]
      exact previews.ids
    rw [if_neg hempty, if_neg hempty,
      foldl_modifyFirst_key (fun _ => unseen_id _) unseen_unseen _ hafter, List.map_map,
      statusOf_map previews.ids (fun q => by dsimp only [Function.comp]; split <;> simp [after]) hp]
    have hmem : (p.after cs).id ∈ ((previews.rows.map (·.id)).filter fun id =>
        !(cs.foldl PreviewPull.turn
          (PreviewPull.mk previews.rows [])).foundApplicationPreviews.contains id) ↔
          ¬ ∃ c ∈ cs, c.IsOf p := by
      rw [after_id, List.mem_filter, and_iff_right (List.mem_map_of_mem (f := (·.id)) hp),
        ← not_iff_not]
      simpa using hfound p hp
    rw [Function.comp_apply]
    by_cases hsome : ∃ c ∈ cs, c.IsOf p
    · rw [if_neg fun h => hmem.mp h hsome, if_pos hsome]
    · rw [if_pos (hmem.mpr hsome), if_neg hsome, after_of_none hsome]

theorem statusOf_pushPreviews (previews : ServerPreviews) {p : ApplicationPreview}
    (hp : p ∈ previews.rows) (cs : List DeployedContainer) :
    statusOf (pushPreviews previews.rows cs) p.id = some (storedStatus p.unseen.status cs p) := by
  obtain ⟨hprev, hfound⟩ := PreviewPush.foldl_turn (s := PreviewPush.mk previews.rows [])
    (key_nodup previews) cs
  unfold pushPreviews storedStatus
  dsimp only
  have hafter : ((previews.rows.map (after cs)).map key).Nodup := by
    rw [List.map_map]
    exact key_nodup previews
  rw [hprev, foldl_modifyFirst_key (fun _ => unseen_key _) unseen_unseen _ hafter, List.map_map,
    statusOf_map previews.ids (fun q => by dsimp only [Function.comp]; split <;> simp [after]) hp]
  have hmem : (p.after cs).key ∈ ((previews.rows.map key).filter fun k =>
      !(cs.foldl PreviewPush.turn
        (PreviewPush.mk previews.rows [])).foundApplicationPreviewsIds.contains k) ↔
        ¬ ∃ c ∈ cs, c.IsOf p := by
    rw [after_key, List.mem_filter, and_iff_right (List.mem_map_of_mem (f := key) hp),
      ← not_iff_not]
    simpa using hfound p hp
  rw [Function.comp_apply]
  by_cases hsome : ∃ c ∈ cs, c.IsOf p
  · rw [if_neg fun h => hmem.mp h hsome, if_pos hsome]
  · rw [if_pos (hmem.mpr hsome), if_neg hsome, after_of_none hsome]

/-- A status string is that of a healthy container. -/
theorem pulledStatus_healthy_iff (c : DeployedContainer) :
    c.pulledStatus = "running:healthy" ↔ c.IsHealthy := by
  unfold ServerContainer.pulledStatus IsHealthy
  generalize c.report = report
  obtain ⟨state, health⟩ := report
  cases state <;> rcases health with - | - | - | - <;>
    simp [DockerContainer.statusString, ContainerReport.container, ContainerState.text,
      ContainerHealth.text]

/-- Whichever status a preview has without containers. -/
theorem statusOfAll_iff {update : List DeployedContainer → List ApplicationPreview}
    {p : ApplicationPreview} {gone : List DeployedContainer → String}
    (hgone : ∀ cs cs', cs.Perm cs' → gone cs' = gone cs)
    (hupdate : ∀ cs, statusOf (update cs) p.id = some (storedStatus (gone cs) cs p))
    (cs : List DeployedContainer) :
    StatusOfAll update cs p ↔
      ∀ c ∈ cs, ∀ c' ∈ cs, c.IsOf p → c'.IsOf p → c.pulledStatus = c'.pulledStatus := by
  have hsets : ∀ c u, sets p c = some u ↔ c.IsOf p ∧ c.pulledStatus = u := by
    intro c u
    rw [sets]
    split <;> simp [*]
  have hall : (∀ c ∈ cs, ∀ c' ∈ cs, ∀ u u', sets p c = some u → sets p c' = some u' → u = u') ↔
      ∀ c ∈ cs, ∀ c' ∈ cs, c.IsOf p → c'.IsOf p → c.pulledStatus = c'.pulledStatus := by
    constructor
    · intro h c hc c' hc' hof hof'
      exact h c hc c' hc' _ _ ((hsets c _).mpr ⟨hof, rfl⟩) ((hsets c' _).mpr ⟨hof', rfl⟩)
    · intro h c hc c' hc' u u' hu hu'
      obtain ⟨hof, rfl⟩ := (hsets c u).mp hu
      obtain ⟨hof', rfl⟩ := (hsets c' u').mp hu'
      exact h c hc c' hc' hof hof'
  by_cases hsome : ∃ c ∈ cs, c.IsOf p
  · have hstored : ∀ cs', cs.Perm cs' →
        statusOf (update cs') p.id = some (lastWrite (sets p) cs' p.status) := by
      intro cs' hperm
      obtain ⟨c, hc, hof⟩ := hsome
      rw [hupdate, storedStatus, if_pos ⟨c, hperm.mem_iff.mp hc, hof⟩]
      rfl
    constructor
    · intro h
      refine hall.mp ((lastWrite_perm_iff (v := p.status)).mp fun cs' hperm => ?_)
      have := h.order cs' hperm
      rw [hstored cs' hperm, hstored cs (List.Perm.refl _)] at this
      exact Option.some.inj this
    · intro h
      refine ⟨fun cs' hperm => ?_, fun hhealthy c hc hof => ?_⟩
      · rw [hstored cs' hperm, hstored cs (List.Perm.refl _),
          lastWrite_perm_iff.mpr (hall.mpr h) cs' hperm]
      · rw [hstored cs (List.Perm.refl _), Option.some_inj] at hhealthy
        obtain ⟨c', hc', hset⟩ := lastWrite_of_mem (v := p.status) hc ((hsets c _).mpr ⟨hof, rfl⟩)
        rw [hhealthy] at hset
        obtain ⟨hof', hstatus⟩ := (hsets c' _).mp hset
        rw [← pulledStatus_healthy_iff, h c hc c' hc' hof hof', hstatus]
  · refine iff_of_true ⟨fun cs' hperm => ?_, fun _ c hc hof => absurd ⟨c, hc, hof⟩ hsome⟩
      fun c hc _ _ hof => absurd ⟨c, hc, hof⟩ hsome
    have hsome' : ¬ ∃ c ∈ cs', c.IsOf p := fun ⟨c, hc, hof⟩ =>
      hsome ⟨c, hperm.mem_iff.mpr hc, hof⟩
    rw [hupdate, hupdate, storedStatus, storedStatus, if_neg hsome, if_neg hsome',
      hgone cs cs' hperm]

/-- Either way of updating serves a preview right exactly where all its containers
have the same status. -/
theorem status_of_containers_iff (previews : ServerPreviews) (containers : List DeployedContainer)
    (p : ApplicationPreview) (hp : p ∈ previews.rows) :
    StatusOfAll (pullPreviews previews.rows) containers p ∧
        StatusOfAll (pushPreviews previews.rows) containers p ↔
      ∀ c ∈ containers, ∀ c' ∈ containers, c.IsOf p → c'.IsOf p →
        c.pulledStatus = c'.pulledStatus := by
  rw [statusOfAll_iff ?_ (statusOf_pullPreviews previews hp),
    statusOfAll_iff (fun _ _ _ => rfl) (statusOf_pushPreviews previews hp), and_self]
  intro cs cs' hperm
  rw [show cs'.isEmpty = cs.isEmpty by
    rw [Bool.eq_iff_iff, List.isEmpty_iff_length_eq_zero, List.isEmpty_iff_length_eq_zero,
      hperm.length_eq]]

/-- Pull request 12 of application 3. -/
def shopPreview : ApplicationPreview := ⟨1, 3, 12, "exited", by decide⟩

def shopPreviews : ServerPreviews where
  rows := [shopPreview]
  ids := List.nodup_singleton _
  pullRequests := List.nodup_singleton _

def shopPreviewContainer (service : String) (report : ContainerReport) : DeployedContainer where
  name := service ++ "-pr-12"
  report := report
  restartCount := 0
  labels :=
    { managed := true
      oneoff := none
      applicationId := some (toString 3)
      serviceId := none
      type := some "application"
      service := some service }
  pullRequestId := some (toString 12)
  labelled id h := ⟨rfl, ⟨3, by decide, (Option.some.inj h).symm⟩, 12, rfl⟩

/-- Both containers are running and healthy. -/
theorem healthy_containers_alike :
    StatusOfAll (pullPreviews shopPreviews.rows)
        (["web", "db"].map (shopPreviewContainer · (.running, some .healthy))) shopPreview ∧
      StatusOfAll (pushPreviews shopPreviews.rows)
        (["web", "db"].map (shopPreviewContainer · (.running, some .healthy))) shopPreview := by
  refine (status_of_containers_iff shopPreviews _ shopPreview (List.mem_singleton_self _)).mpr ?_
  intro c hc c' hc' _ _
  obtain ⟨service, -, rfl⟩ := List.mem_map.mp hc
  obtain ⟨service', -, rfl⟩ := List.mem_map.mp hc'
  rfl

/-- The database has exited, the web server comes last. -/
theorem last_container_hides_exit : ¬ ∀ (previews : ServerPreviews)
    (containers : List DeployedContainer) (p : ApplicationPreview), p ∈ previews.rows →
    StatusOfAll (pullPreviews previews.rows) containers p := by
  intro h
  have hall := (h shopPreviews [shopPreviewContainer "db" (.exited, none),
    shopPreviewContainer "web" (.running, some .healthy)] shopPreview
    (List.mem_singleton_self _)).healthy (by decide +kernel)
  have hdb := hall _ (List.mem_cons_self ..) (by decide +kernel)
  exact absurd (congrArg Prod.fst hdb) (by decide)

end Result

end OnePloy
