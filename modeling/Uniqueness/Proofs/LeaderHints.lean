import Uniqueness.Cluster.Forward
import Uniqueness.Cluster.Service
import Uniqueness.Proofs.Retries

namespace Uniqueness.Cluster

variable {σ : Type}

def LeaderHint.Known (fault : WriteFault) (v : View) (hint : LeaderHint) : Prop :=
  hint.address = "" ∨ fault.hint? = some hint ∨ v.addressOf hint.id = hint.address

def LeaderHint.Agrees (fault : WriteFault) (v : View) (hint : LeaderHint) : Prop :=
  ∀ named, fault.hint? = some named → hint.address ≠ "" → named.address ≠ "" ∨ v.addressOf named.id ≠ "" →
    ∀ f : Forwarder, f.leaderAddress v named = .ok hint.address

/-- Whether a fault names a leader without its address, and another one is seen since, elsewhere. -/
def WriteFault.Overtaken (fault : WriteFault) (v : View) : Prop :=
  ∃ id other, fault.hint? = some ⟨id, ""⟩ ∧ v.leader = some other ∧ v.addressOf other ≠ "" ∧
    v.addressOf other ≠ v.addressOf id

theorem Forwarder.leaderAddress_of_ne {f : Forwarder} {v : View} {hint : LeaderHint} (h : hint.address ≠ "") :
    f.leaderAddress v hint = .ok hint.address := by
  rw [leaderAddress, if_neg (mt String.isEmpty_iff.mp h)]

theorem Forwarder.leaderAddress_of_member {f : Forwarder} {v : View} {id : UInt64} (h : v.addressOf id ≠ "") :
    f.leaderAddress v ⟨id, ""⟩ = .ok (v.addressOf id) := by
  have hmember : (v.addressOf id).isEmpty = false := Bool.eq_false_iff.mpr (mt String.isEmpty_iff.mp h)
  change f.addressOf v id = _
  rw [addressOf, hmember]
  rfl

namespace Service

def hintOf (fault : WriteFault) (v : View) : LeaderHint :=
  match fault.hint? with
  | some hint => if hint.address = "" then ⟨hint.id, (leaderOf v).address⟩ else hint
  | none => leaderOf v

theorem refusal_eq (fault : WriteFault) (v : View) : ∃ reason, refusal fault v = .refused reason (hintOf fault v) := by
  rw [refusal, hintOf]
  cases fault.hint? with
  | none => exact ⟨_, rfl⟩
  | some hint =>
    refine ⟨_, congrArg (ExecuteReply.refused _) ?_⟩
    simp only [String.isEmpty_iff]
    split_ifs
    · rfl
    · rfl

theorem execute_failed {g : Consensus σ} {command : Command} {s s' : σ} {fault : WriteFault}
    (h : g.write command s = (.failed fault, s')) :
    execute g (Json.encode command) s = (.ok (refusal fault (g.view s')), s') := by
  simp only [execute, Json.decode_encode, h]

theorem known_leaderOf (fault : WriteFault) (v : View) : (leaderOf v).Known fault v := by
  rw [leaderOf]
  cases v.leader with
  | none => exact .inl rfl
  | some id => exact .inr (.inr rfl)

theorem hintOf_overtaken {fault : WriteFault} {v : View} {id other : UInt64} (h : fault.hint? = some ⟨id, ""⟩)
    (hother : v.leader = some other) : hintOf fault v = ⟨id, v.addressOf other⟩ := by
  simp [hintOf, h, leaderOf, hother]

theorem hintOf_of_ne {fault : WriteFault} {v : View} {named : LeaderHint} (h : fault.hint? = some named)
    (hne : named.address ≠ "") : hintOf fault v = named := by
  simp only [hintOf, h, if_neg hne]

theorem id_hintOf {fault : WriteFault} {v : View} {named : LeaderHint} (h : fault.hint? = some named) :
    (hintOf fault v).id = named.id := by
  simp only [hintOf, h]
  split_ifs
  · rfl
  · rfl

theorem known_of_unaddressed {fault : WriteFault} {v : View} {id : UInt64} (h : fault.hint? = some ⟨id, ""⟩)
    (hcurrent : ¬fault.Overtaken v) : (hintOf fault v).Known fault v := by
  cases hleader : v.leader with
  | none => exact .inl (by simp [hintOf, h, leaderOf, hleader])
  | some other =>
    rw [hintOf_overtaken h hleader]
    by_cases hne : v.addressOf other = ""
    · exact .inl hne
    · refine .inr (.inr (Eq.symm ?_))
      by_contra hdiffer
      exact hcurrent ⟨id, other, h, hleader, hne, hdiffer⟩

theorem known_hintOf_iff (fault : WriteFault) (v : View) : (hintOf fault v).Known fault v ↔ ¬fault.Overtaken v := by
  constructor
  · rintro hknown ⟨id, other, hfault, hother, hne, hdiffer⟩
    rw [hintOf_overtaken hfault hother] at hknown
    rcases hknown with hempty | hcarried | hmember
    · exact hne hempty
    · rw [hfault] at hcarried
      exact hne (congrArg LeaderHint.address (Option.some.inj hcarried)).symm
    · exact hdiffer hmember.symm
  · intro hcurrent
    cases hfault : fault.hint? with
    | none =>
      rw [hintOf, hfault]
      exact known_leaderOf fault v
    | some named =>
      obtain ⟨id, address⟩ := named
      by_cases hempty : address = ""
      · subst hempty
        exact known_of_unaddressed hfault hcurrent
      · rw [hintOf_of_ne hfault hempty]
        exact .inr (.inl hfault)

theorem agrees_of_known {fault : WriteFault} {v : View} (h : (hintOf fault v).Known fault v) :
    (hintOf fault v).Agrees fault v := by
  rintro ⟨id, address⟩ hfault haddress hfound f
  by_cases hempty : address = ""
  · subst hempty
    have hid : (hintOf fault v).id = id := id_hintOf hfault
    rw [Forwarder.leaderAddress_of_member (hfound.resolve_left fun hne => hne rfl)]
    rcases h with hnone | hcarried | hmember
    · exact absurd hnone haddress
    · rw [hfault] at hcarried
      exact absurd (congrArg LeaderHint.address (Option.some.inj hcarried)).symm haddress
    · rw [← hmember, hid]
  · rw [hintOf_of_ne hfault hempty]
    exact Forwarder.leaderAddress_of_ne hempty

theorem agrees_hintOf_iff (fault : WriteFault) (v : View) :
    (hintOf fault v).Agrees fault v ↔ ¬fault.Overtaken v ∨ v.addressOf (hintOf fault v).id = "" := by
  constructor
  · intro hagrees
    refine or_iff_not_imp_left.mpr fun hovertaken => ?_
    obtain ⟨id, other, hfault, hother, hne, hdiffer⟩ := not_not.mp hovertaken
    have hhint := hintOf_overtaken hfault hother
    rw [hhint] at hagrees ⊢
    by_contra hmember
    have haddress := hagrees _ hfault hne (.inr hmember) (.ofSettings .standard)
    rw [Forwarder.leaderAddress_of_member hmember] at haddress
    exact hdiffer (Except.ok.inj haddress).symm
  · rintro (hcurrent | hmember)
    · exact agrees_of_known ((known_hintOf_iff fault v).mpr hcurrent)
    · rintro ⟨id, address⟩ hfault haddress hfound f
      rw [id_hintOf hfault] at hmember
      have hne := hfound.resolve_right fun h => h hmember
      rw [hintOf_of_ne hfault hne]
      exact Forwarder.leaderAddress_of_ne hne

/-- A refusal has no address but the one of the leader that it names, and that is where this node would have passed
the command on, unless the fault names a leader without address and another one is seen when the refusal is made. -/
theorem refusal_names_one_leader_iff {g : Consensus σ} {command : Command} {s s' : σ} {fault : WriteFault}
    (h : g.write command s = (.failed fault, s')) :
    ∃ reason hint, execute g (Json.encode command) s = (.ok (.refused reason hint), s') ∧
      (hint.Known fault (g.view s') ↔ ¬fault.Overtaken (g.view s')) ∧
      (hint.Agrees fault (g.view s') ↔ ¬fault.Overtaken (g.view s') ∨ (g.view s').addressOf hint.id = "") := by
  obtain ⟨reason, hrefusal⟩ := refusal_eq fault (g.view s')
  refine ⟨reason, hintOf fault (g.view s'), ?_, known_hintOf_iff fault _, agrees_hintOf_iff fault _⟩
  rw [execute_failed h, hrefusal]

def follower (second : String) (leader : UInt64) : View :=
  ⟨.follower, some leader, 1, none, none, none,
    ⟨[.ofList [1, 2, 3]], .ofList [(1, "a:1"), (2, second), (3, "c:3")]⟩⟩

def deferring (fault : WriteFault) (v : View) : Consensus Unit where
  write _ s := (.failed fault, s)
  query _ _ := .error .needsResync
  addLearner _ _ s := (.waiting, s)
  changeVoters _ s := (.waiting, s)
  view _ := v

theorem unaddressed_leader_is_looked_up : ∃ reason,
    execute (deferring (.forward (some 2) none) (follower "b:2" 2)) (Json.encode Command.size) () =
        (.ok (.refused reason ⟨2, "b:2"⟩), ()) ∧
      (LeaderHint.mk 2 "b:2").Known (.forward (some 2) none) (follower "b:2" 2) ∧
      (LeaderHint.mk 2 "b:2").Agrees (.forward (some 2) none) (follower "b:2" 2) := by
  have hwrite : (deferring (.forward (some 2) none) (follower "b:2" 2)).write .size () =
      (.failed (.forward (some 2) none), ()) := rfl
  have hcurrent : ¬(WriteFault.forward (some 2) none).Overtaken (follower "b:2" 2) := by
    rintro ⟨id, other, hfault, hother, hne, hdiffer⟩
    cases hfault
    cases hother
    exact hdiffer rfl
  obtain ⟨reason, hint, hexecute, hknown, hagrees⟩ := refusal_names_one_leader_iff hwrite
  -- the hint that the theorem speaks of is the one that is sent
  have hhint : hint = ⟨2, "b:2"⟩ := by
    rw [execute_failed hwrite] at hexecute
    cases hexecute
    rfl
  subst hhint
  exact ⟨reason, hexecute, hknown.mpr hcurrent, hagrees.mpr (.inl hcurrent)⟩

theorem refusal_with_another_address : ∃ reason,
    execute (deferring (.forward (some 2) (some "")) (follower "" 3)) (Json.encode Command.size) () =
        (.ok (.refused reason ⟨2, "c:3"⟩), ()) ∧
      ¬(LeaderHint.mk 2 "c:3").Known (.forward (some 2) (some "")) (follower "" 3) ∧
      (Forwarder.mk 1 (.ofList [(2, "b:2")]) 5000 .empty).leaderAddress (follower "" 3) ⟨2, ""⟩ = .ok "b:2" ∧
      Client.ofRefusal "a:1" reason ⟨2, "c:3"⟩ = .redirect "c:3" := by
  have hovertaken : WriteFault.Overtaken (.forward (some 2) (some "")) (follower "" 3) :=
    ⟨2, 3, rfl, rfl, by decide, by decide⟩
  have hwrite : (deferring (.forward (some 2) (some "")) (follower "" 3)).write .size () =
      (.failed (.forward (some 2) (some "")), ()) := rfl
  obtain ⟨reason, hrefusal⟩ := refusal_eq (.forward (some 2) (some "")) (follower "" 3)
  refine ⟨reason, ?_, ?_, by decide, rfl⟩
  · rw [execute_failed hwrite]
    exact congrArg (fun reply => (Except.ok reply, ())) hrefusal
  · intro hknown
    exact (known_hintOf_iff _ _).mp hknown hovertaken

end Service

end Uniqueness.Cluster
