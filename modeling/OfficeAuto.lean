import OfficeAuto.Odata.EntityId
import OfficeAuto.Service.JobCrash
import OfficeAuto.Odata.DraftSave
import OfficeAuto.Entity.SequenceBank
import OfficeAuto.Service.Semaphore
import OfficeAuto.Odata.Expand
import OfficeAuto.Odata.StringCondition
import OfficeAuto.Entity.XmlSerializer
import OfficeAuto.Service.TemporalRange
import OfficeAuto.Service.ExpressionOrder
import OfficeAuto.Base.MapContextHeap
import OfficeAuto.Odata.ChangeSet
import OfficeAuto.Base.StringExpander
import OfficeAuto.Entity.ConditionIdentity
import OfficeAuto.Base.PutIfAbsent
import OfficeAuto.Base.UtilCodec
import OfficeAuto.Base.TimeDuration
import OfficeAuto.Base.ComparableRange
import OfficeAuto.Base.StringUtil
import OfficeAuto.Base.MapToStr
import OfficeAuto.Base.LifoSet
import OfficeAuto.Service.ServiceDispatcher
import OfficeAuto.Odata.DraftHandler
import OfficeAuto.Odata.AnnotationCheck
import OfficeAuto.Permission.EntityPermissionChecker
import OfficeAuto.Sync.PullEntitySync
import OfficeAuto.Odata.DateCondition
import OfficeAuto.Entity.LikePattern
import OfficeAuto.Entity.ConditionCache
import OfficeAuto.Entity.ViewCondition
import OfficeAuto.Entity.EntitySaxReader
import OfficeAuto.Odata.ExtraFilter
import OfficeAuto.Entity.ModelConversion
import OfficeAuto.Odata.SearchExpr
import OfficeAuto.Odata.PrimitiveValue
import OfficeAuto.Odata.EnumMember
import OfficeAuto.Odata.OrderBy
import OfficeAuto.Odata.LinkRun
import OfficeAuto.Odata.ListFields
import OfficeAuto.Odata.DeepInsert
import OfficeAuto.Service.CyclicRange
import OfficeAuto.Service.FrequencySteps
import OfficeAuto.Service.JobRetry
import OfficeAuto.Entity.PagedList
import OfficeAuto.Service.RuleRuns
import OfficeAuto.Entity.OrderByItem
import OfficeAuto.Datafile.FixedField
import OfficeAuto.Entity.ShortenDbName
import OfficeAuto.Entity.EntityTypeUtil
import OfficeAuto.Entity.DatedInclusion
import OfficeAuto.Entity.EntityValue
import OfficeAuto.Common.FindServices
import OfficeAuto.Entity.KeyCreation
import OfficeAuto.Entity.DbName
import OfficeAuto.Base.QueryValue
import OfficeAuto.Base.Luhn
import OfficeAuto.Service.GroupModel
import OfficeAuto.Service.ModelServiceReader
import OfficeAuto.Service.MakeValid
import OfficeAuto.Odata.FilterCollection
import OfficeAuto.Odata.RetrieveOrderBy
import OfficeAuto.Minilang.Transactions
