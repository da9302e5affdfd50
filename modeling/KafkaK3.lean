import KafkaK3.EventTrace
import KafkaK3.ConsumerInvariants
import KafkaK3.CommitOrder
import KafkaK3.CommitSafety
import KafkaK3.Conservation
import KafkaK3.BundleBounds
import KafkaK3.SizeAccounting
import KafkaK3.TopicIsolation
import KafkaK3.Discovery
import KafkaK3.ImageDiscovery
import KafkaK3.ReplayMerge
import KafkaK3.ReplayOrder
import KafkaK3.ReplayRoundTrip
import KafkaK3.KeyTime
import KafkaK3.Glob
import KafkaK3.Wildcard
import KafkaK3.KafkaConfig
import KafkaK3.TopicDiscovery
import KafkaK3.TopicList
import KafkaK3.Subscription
import KafkaK3.KeyCover
import KafkaK3.Strtod
import KafkaK3.TimeOrder
import KafkaK3.CalendarOrder
import KafkaK3.KeyListing
import KafkaK3.TopicSelection
import KafkaK3.EventReplay
import KafkaK3.StoredEvents
import KafkaK3.ReplayCompleteness
import KafkaK3.KeyFidelity
import KafkaK3.DecoderSafety
import KafkaK3.PartitionDestination
import KafkaK3.ChecksumRange
import KafkaK3.ImageChain
import KafkaK3.KeyUniqueness
import KafkaK3.LastValue
import KafkaK3.ConfCreation
import KafkaK3.SettingPrecedence
import KafkaK3.FailedDownload
import KafkaK3.TimeRoundTrip
import KafkaK3.TimestampRange
import KafkaK3.BrokerSession
import KafkaK3.CrashRecovery
import KafkaK3.FloatRounding
import KafkaK3.MemoryCheck
import KafkaK3.Pacing
import KafkaK3.RunLoop
import KafkaK3.S3Setup
import KafkaK3.BackupProcess
import KafkaK3.LocalFiles
import KafkaK3.ReplayProcess
import KafkaK3.ReplayDirectory
import KafkaK3.BucketContents
import KafkaK3.BackupAndReplay
import KafkaK3.ListingFailure
import KafkaK3.ProducerSetup
import KafkaK3.ReplayWindow
