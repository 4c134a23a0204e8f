import DeepLink.Main
import DeepLink.Samples
import DeepLink.Proofs.BindingLaws
import DeepLink.Proofs.PercentCodec
import DeepLink.Proofs.Splitting
import DeepLink.Proofs.QueryCodec
import DeepLink.Proofs.Matching
import DeepLink.Proofs.ParsedPattern
import DeepLink.Proofs.MapperLaws
import DeepLink.Proofs.TableLaws
import DeepLink.Proofs.RegistrationOrder
import DeepLink.Proofs.TableRoutes
import DeepLink.Proofs.RawRoundTrip
import DeepLink.Proofs.DecodedPath
import DeepLink.Proofs.Candidates
import DeepLink.Proofs.QueryOrder
import DeepLink.Proofs.Words
import DeepLink.Proofs.ParserLaws
import DeepLink.Proofs.UrlReading
import DeepLink.Proofs.PathReading
import DeepLink.Proofs.LinkReading
import DeepLink.Proofs.Normalization
import DeepLink.Proofs.QueryDependence
import DeepLink.Proofs.BuiltHost
import DeepLink.Proofs.OwnUrls
import DeepLink.Proofs.UrlRoundTrip
import DeepLink.Proofs.PlainRoundTrip
import DeepLink.Proofs.NormalText
import DeepLink.Proofs.PatternGrammar
import DeepLink.Proofs.ConfiguredTables
import DeepLink.Proofs.DeclaredNames
import DeepLink.Proofs.PlaceholderScan
import DeepLink.Proofs.WrittenPatterns
import DeepLink.Proofs.TemplateSpelling
import DeepLink.Proofs.TemplateRoundTrip
import DeepLink.Proofs.NormalizedRoutes
import DeepLink.Proofs.ParameterNames
import DeepLink.Proofs.ValidationReport
import DeepLink.Proofs.SampleRoutes
import DeepLink.Proofs.WrittenArguments
