import Mathlib.Data.List.Count

/-! What the daemon says it can do, from the options it is started with. The values of `-o` are
checked one after the other, and a flag that outlives each check remembers an icon. -/

namespace NotifsPiper.Options

def capabilitiesEnumerated : List String :=
  ["action-icons", "actions", "body", "body-hyperlinks", "body-images", "body-markup",
    "icon-multi", "icon-static", "persistence", "sound"]

def isIcon (val : String) : Bool := "icon".toList.isPrefixOf val.toList

/-- The check of one value, and the static flag after it. An icon that is refused for its name
has set the flag all the same. -/
def optsChecker (val : String) (mutuallyExcludedIcon : Bool) : Except String String × Bool :=
  if isIcon val && mutuallyExcludedIcon then
    (.error ("'icon-static' and 'icon-multi' are mutually exclusive." ++
      "Please refer to the docs from freedesktop.org for the Notifications interface."),
      mutuallyExcludedIcon)
  else
    let mutuallyExcludedIcon := isIcon val || mutuallyExcludedIcon
    if val ∈ capabilitiesEnumerated then (.ok val, mutuallyExcludedIcon)
    else (.error ("Invalid capability. Possible values are:\n" ++
      "\n".intercalate capabilitiesEnumerated), mutuallyExcludedIcon)

/-- The parser checks the values in their order, and stops at the first it refuses. -/
def options : List String → Bool → Except String (List String)
  | [], _ => .ok []
  | val :: vals, mutuallyExcludedIcon =>
    match optsChecker val mutuallyExcludedIcon with
    | (.error err, _) => .error err
    | (.ok val, mutuallyExcludedIcon) => (options vals mutuallyExcludedIcon).map (val :: ·)

/-- `main`, for `Sub::Daemon`: what `get_capabilities` returns from then on. -/
def capabilities (vals : List String) (all : Bool) : Except String (List String) :=
  (options vals false).map fun options =>
    if all then capabilitiesEnumerated.filter (· != "icon-static") else options

theorem optsChecker_ok_iff {val out : String} {before after : Bool} :
    optsChecker val before = (.ok out, after) ↔
      out = val ∧ val ∈ capabilitiesEnumerated ∧ (isIcon val && before) = false ∧
        after = (isIcon val || before) := by
  unfold optsChecker
  split_ifs with hicon hknown
  · simp [hicon]
  · simp only [Prod.mk.injEq, Except.ok.injEq, hknown, Bool.not_eq_true _ ▸ hicon, true_and]
    exact and_congr eq_comm eq_comm
  · simp [hknown]

theorem options_ok_iff {vals out : List String} {before : Bool} :
    options vals before = .ok out ↔
      out = vals ∧ (∀ val ∈ vals, val ∈ capabilitiesEnumerated) ∧
        vals.countP isIcon + before.toNat ≤ 1 := by
  induction vals generalizing before out with
  | nil =>
    have hflag : before.toNat ≤ 1 := before.toNat_le
    simp [options, hflag, eq_comm]
  | cons val vals ih =>
    rw [options]
    split
    next err after hcheck =>
      refine iff_of_false (fun h => nomatch h) ?_
      rintro ⟨-, hknown, hcount⟩
      have hok : optsChecker val before = (.ok val, isIcon val || before) := by
        refine optsChecker_ok_iff.mpr ⟨rfl, hknown val List.mem_cons_self, ?_, rfl⟩
        cases hicon : isIcon val <;> cases before <;> simp_all
      rw [hok] at hcheck
      cases hcheck
    next val' after hcheck =>
      obtain ⟨rfl, hknown, hicon, rfl⟩ := optsChecker_ok_iff.mp hcheck
      have hflag : (isIcon val' || before).toNat = (isIcon val').toNat + before.toNat := by
        cases hval : isIcon val' <;> cases before <;> simp_all
      constructor
      · intro h
        cases hrest : options vals (isIcon val' || before) with
        | error err => simp [hrest, Except.map] at h
        | ok rest =>
          obtain ⟨rfl, hall, hcount⟩ := ih.mp hrest
          rw [hrest] at h
          cases h
          refine ⟨rfl, List.forall_mem_cons.mpr ⟨hknown, hall⟩, ?_⟩
          rw [hflag] at hcount
          rw [List.countP_cons]
          cases hval : isIcon val' <;> simp_all
      · rintro ⟨rfl, hall, hcount⟩
        rw [List.countP_cons] at hcount
        have hrest : options vals (isIcon val' || before) = .ok vals := by
          refine ih.mpr ⟨rfl, (List.forall_mem_cons.mp hall).2, ?_⟩
          rw [hflag]
          cases hval : isIcon val' <;> simp_all
        rw [hrest]
        rfl

theorem capabilities_ok_iff {vals caps : List String} {all : Bool} :
    capabilities vals all = .ok caps ↔
      (∀ val ∈ vals, val ∈ capabilitiesEnumerated) ∧ vals.countP isIcon ≤ 1 ∧
        caps = if all then capabilitiesEnumerated.filter (· != "icon-static") else vals := by
  unfold capabilities
  cases hoptions : options vals false with
  | error err =>
    refine iff_of_false (fun h => nomatch h) ?_
    rintro ⟨hknown, hcount, -⟩
    have hok : options vals false = .ok vals := options_ok_iff.mpr ⟨rfl, hknown, hcount⟩
    cases hoptions.symm.trans hok
  | ok out =>
    obtain ⟨rfl, hknown, hcount⟩ := options_ok_iff.mp hoptions
    simp only [Except.map, Except.ok.injEq]
    exact ⟨fun h => ⟨hknown, hcount, h.symm⟩, fun h => h.2.2.symm⟩

/-- The options are accepted exactly when each is known and at most one of them is an icon.
Whatever is accepted, the daemon announces only capabilities there are, and never both kinds of
icons. -/
theorem capabilities_sound (vals : List String) (all : Bool) :
    ((∃ caps, capabilities vals all = .ok caps) ↔
      (∀ val ∈ vals, val ∈ capabilitiesEnumerated) ∧ vals.countP isIcon ≤ 1) ∧
      ∀ caps, capabilities vals all = .ok caps →
        (∀ cap ∈ caps, cap ∈ capabilitiesEnumerated) ∧ caps.countP isIcon ≤ 1 ∧
          (all = false → caps = vals) := by
  refine ⟨?_, fun caps h => ?_⟩
  · simp only [capabilities_ok_iff]
    exact ⟨fun ⟨_, hknown, hcount, _⟩ => ⟨hknown, hcount⟩, fun h => ⟨_, h.1, h.2, rfl⟩⟩
  · obtain ⟨hknown, hcount, rfl⟩ := capabilities_ok_iff.mp h
    cases all with
    | true =>
      have hone : (capabilitiesEnumerated.filter (· != "icon-static")).countP isIcon ≤ 1 := by
        decide
      exact ⟨fun cap hcap => (List.mem_filter.mp hcap).1, hone, nofun⟩
    | false => exact ⟨hknown, hcount, fun _ => rfl⟩

example : capabilities ["body", "icon-multi", "icon-static"] false =
    .error ("'icon-static' and 'icon-multi' are mutually exclusive." ++
      "Please refer to the docs from freedesktop.org for the Notifications interface.") := by
  decide

end NotifsPiper.Options
