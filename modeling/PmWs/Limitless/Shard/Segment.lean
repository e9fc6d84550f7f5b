import Mathlib.Data.String.Basic
import PmWs.Limitless

/-!
# A shard's segment

A shard publishes into at most one segment, whose directory is write-once: a
closed market keeps its place and a later one of the same slug resumes it. The
first publication the writer refuses is latched, and nothing is written after.
-/

open MachineInt

namespace PmWs

/-- A market's place in the directory, and the epoch its last book was closed at. -/
structure SegmentEntry where
  handle : MarketHandle
  live : Bool
  retiredEpoch : Nat
  deriving DecidableEq, Repr

inductive SegmentRefusal where
  | writer (error : WriterError)
  | streamNotRebased
  deriving DecidableEq, Repr

def SegmentRefusal.writerError : SegmentRefusal → WriterError
  | writer error => error
  | streamNotRebased => .marketAlreadyInstalled

/-- A resumed stream starts past the one that was closed. -/
def rebasedPast (published : PublishedBook) (retiredEpoch : Nat) : Bool :=
  match published.continuity with
  | .intact epoch _ => retiredEpoch < epoch
  | .lost epoch _ => retiredEpoch ≤ epoch

structure ShardSegment where
  writer : SegmentWriter
  entries : Std.ExtTreeMap String SegmentEntry
  live : Nat
  failure : Option WriterError

namespace ShardSegment

def new (writer : SegmentWriter) : ShardSegment := ⟨writer, ∅, 0, none⟩

variable (self : ShardSegment)

def handle (slug : String) : Option MarketHandle := self.entries[slug]?.map (·.handle)

/-- Keeps what a write left, or latches its refusal. -/
def written : Except WriterError SegmentWriter → ShardSegment
  | .ok writer => { self with writer }
  | .error error => { self with failure := some error }

/-- One write to the place of `slug`, unless a refusal is latched. -/
def writeTo (slug : String) (write : MarketHandle → Except WriterError SegmentWriter) : ShardSegment :=
  if self.failure.isSome then self
  else
    match self.handle slug with
    | none => { self with failure := some .unknownHandle }
    | some handle => self.written (write handle)

def publishState (slug : String) (published : PublishedBook) : ShardSegment :=
  self.writeTo slug fun handle => self.writer.publish handle published

/-- A commit's mutations in their order. The first the writer refuses ends it, with those before it written. -/
def publishMutations (self : ShardSegment) (slug : String) (revision : Nat) : List MutationRecord → ShardSegment
  | [] => self
  | record :: rest =>
    (self.writeTo slug fun handle => self.writer.publishMutation handle revision record.cursor record.mutation)
      |>.publishMutations slug revision rest

def publishCommit (slug : String) (commit : BookCommit) (published : PublishedBook) : ShardSegment :=
  (self.publishMutations slug commit.revision commit.mutations).publishState slug published

def publishResolution (slug : String) (revision : Nat) (cursor : MutationCursor)
    (resolution : MarketResolution) (published : PublishedBook) : ShardSegment :=
  (self.writeTo slug fun handle => self.writer.publishResolution handle revision cursor resolution)
    |>.publishState slug published

def installable (slug : String) : Except SegmentRefusal Unit :=
  if self.entries[slug]?.any (·.live) then .error (.writer .marketAlreadyInstalled)
  else if self.failure.isSome then .error (.writer .segmentAlreadyInstalled)
  else if self.entries[slug]?.isNone ∧ self.writer.layout.directoryCapacity ≤ self.entries.size then
    .error (.writer .directoryFull)
  else .ok ()

/-- The place of a market about to be installed: the one it had, if its stream is rebased past it, or a new one. -/
def placeFor (slug : String) (published : PublishedBook) : Except SegmentRefusal (SegmentWriter × MarketHandle) :=
  match self.entries[slug]? with
  | some entry =>
    if rebasedPast published entry.retiredEpoch then .ok (self.writer, entry.handle) else .error .streamNotRebased
  | none => (self.writer.install published.market).mapError .writer

/-- Installs a market and publishes its first state. A refused first state leaves the market installed. -/
def install (slug : String) (published : PublishedBook) : ShardSegment × Except SegmentRefusal Unit :=
  match self.installable slug, self.placeFor slug published with
  | .error refusal, _ | .ok (), .error refusal => (self, .error refusal)
  | .ok (), .ok (writer, handle) =>
    let installed :=
      ShardSegment.publishState
        { self with writer, entries := self.entries.insert slug ⟨handle, true, 0⟩, live := saturatingAdd self.live 1 }
        slug published
    match installed.failure with
    | some error => (installed, .error (.writer error))
    | none => (installed, .ok ())

def retire (slug : String) (published : PublishedBook) : ShardSegment :=
  let self := self.publishState slug published
  match self.entries[slug]? with
  | some entry =>
    if entry.live then
      { self with
        entries := self.entries.insert slug { entry with live := false, retiredEpoch := published.continuity.epoch }
        live := saturatingSub self.live 1 }
    else self
  | none => self

end ShardSegment

end PmWs
