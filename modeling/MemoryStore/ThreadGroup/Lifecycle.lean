/-
Purging the inactive history of a group (`delete` of
`app/src/app/thread_group/lifecycle.rs`).

The purge is confirmed by the digest of its preview, a SHA-256 over a JSON
manifest of the group; the digest is a parameter. The memories linked to a
group, which the same transaction deletes or detaches, are another subsystem
and are left out: their checks can only make a purge fail.
-/
import MemoryStore.ThreadGroup.Repository

namespace MemoryStore.ThreadGroup

/-- The digest of the preview of a purge. -/
class PurgeDigest where
  digest : Store → Nat → String

/-- `internal_relations`: the relations between keys of the group's own rows. -/
def Store.internalRelations (s : Store) (members : List MemberRow) : List RelationRow :=
  let keys := members.map MemberRow.threadCanonicalKey
  s.relations.filter fun r => r.parentThreadCanonicalKey ∈ keys && r.childThreadCanonicalKey ∈ keys

/-- Drop the deletion markers of the placeholders, unless a row of another group names the identity. -/
def purgeMarkers (groupId : Nat) (members : List MemberRow) : StoreTx Unit :=
  Tx.forEach (members.filter (·.state.isDeleted)) fun member =>
    match member.identity with
    | none => pure ()
    | some identity => do
      let key : SourceIdentityKey :=
        ⟨member.userId, identity.source, identity.identityScope, identity.nativeId⟩
      let s ← Tx.get
      if (s.findMarker key).isNone then pure ()
      else if s.existsSourceIdentityOutsideGroup member.userId identity groupId then pure ()
      else consumeMarker key

/-- Flatten the redirects that pointed at a redirected group. -/
def repointInbound (groupId target : Nat) : StoreTx Unit := do
  let s ← Tx.get
  Tx.forEach ((s.groups.filter GroupRow.isRedirected).filter (·.redirectsTo groupId)) fun redirect => do
    let _ ← repointRedirect redirect.id target
    pure ()

/-- `redirect_to_group_id`. -/
def GroupRow.redirectTarget? (g : GroupRow) : Option Nat :=
  match g.status with
  | .redirected target => some target
  | _ => none

/-- `delete`: the purge of a previewed group. -/
def purgeGroup [PurgeDigest] (groupId : Nat) (expectedDigest : String) : StoreTx Unit := do
  let s ← Tx.get
  match s.findGroup groupId with
  | none => Tx.fail (.bail s!"thread group {groupId} not found")
  | some group => do
    Tx.ensure (PurgeDigest.digest s groupId = expectedDigest)
      (.bail "purge preview is stale; request a new preview")
    let members := s.listAllByGroupId groupId
    Tx.ensure (!members.any (·.state.isActive)) (.bail "cannot purge a group with active members")
    -- A split group has no single redirect target, so inbound redirects would dangle.
    Tx.ensure (!(group.status = .split && !(s.listRedirectingTo groupId).isEmpty))
      (.bail "cannot purge a split group that other groups redirect to; resolve those redirects first")
    Tx.forEach ((s.internalRelations members).filter (!·.isActive)) fun relation => deleteRelation relation.id
    deleteAuditsByGroupId groupId
    deleteMembersByGroupId groupId
    purgeMarkers groupId members
    match group.redirectTarget? with
    | some target => repointInbound groupId target
    | none => pure ()
    let deleted ← deleteGroup groupId
    Tx.ensure deleted (.bail s!"group {groupId} disappeared during purge")

end MemoryStore.ThreadGroup
