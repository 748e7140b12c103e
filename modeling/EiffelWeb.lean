import EiffelWeb.Loop
import EiffelWeb.Text
import EiffelWeb.Search
import EiffelWeb.HashTable
import EiffelWeb.Contract
import EiffelWeb.CursorList
import EiffelWeb.Maxima
import EiffelWeb.Directory
import EiffelWeb.Mealy
import EiffelWeb.MerkleDamgard
import EiffelWeb.Special
import EiffelWeb.Limbs
import EiffelWeb.Arrays
import EiffelWeb.Footprint
import EiffelWeb.Word
import EiffelWeb.Character
import EiffelWeb.Encoder.Url
import EiffelWeb.Encoder.UrlRoundTrip
import EiffelWeb.Encoder.UrlTokens
import EiffelWeb.Encoder.Utf8Url
import EiffelWeb.Encoder.Base64
import EiffelWeb.Encoder.Base64Lines
import EiffelWeb.Encoder.Entity
import EiffelWeb.Wsf.Value
import EiffelWeb.Wsf.AddValue
import EiffelWeb.Wsf.Parameters
import EiffelWeb.Wsf.Cookies
import EiffelWeb.Wsf.Leaves
import EiffelWeb.Wsf.Walk
import EiffelWeb.Wsf.InputData
import EiffelWeb.Wsf.MetaVariables
import EiffelWeb.Http.Header
import EiffelWeb.Http.HeaderPut
import EiffelWeb.Client.Response
import EiffelWeb.Authentication.HttpAuthorization
import EiffelWeb.Wsf.Chunk
import EiffelWeb.Wsf.Response
import EiffelWeb.Wsf.Multipart
import EiffelWeb.Wsf.MultipartForm
import EiffelWeb.Wsf.FormErrors
import EiffelWeb.Wsf.FormFields
import EiffelWeb.Wsf.FormDashes
import EiffelWeb.Wsf.FormValues
import EiffelWeb.Conneg.MimeParse
import EiffelWeb.Conneg.BestMatch
import EiffelWeb.Conneg.Preference
import EiffelWeb.UriTemplate.Expression
import EiffelWeb.UriTemplate.Modifier
import EiffelWeb.UriTemplate.Template
import EiffelWeb.UriTemplate.Expansion
import EiffelWeb.UriTemplate.Pattern
import EiffelWeb.UriTemplate.Scan
import EiffelWeb.UriTemplate.Reading
import EiffelWeb.UriTemplate.Soundness
import EiffelWeb.UriTemplate.RoundTrip
import EiffelWeb.UriTemplate.PathSegments
import EiffelWeb.UriTemplate.FormStyle
import EiffelWeb.UriTemplate.Returns
import EiffelWeb.Router.Entry
import EiffelWeb.Router.UriRouter
import EiffelWeb.Router.TemplateRouter
import EiffelWeb.Router.PathParameter
import EiffelWeb.Router.FileSystem
import EiffelWeb.Crypto.ArrayFacilities
import EiffelWeb.Crypto.Aes.Engine
import EiffelWeb.Crypto.Aes.Key
import EiffelWeb.Crypto.Aes.Fips197
import EiffelWeb.Crypto.Aes.Conformance
import EiffelWeb.Crypto.IntegerX
import EiffelWeb.Crypto.Modes
import EiffelWeb.Crypto.Digest.ShaFunctions
import EiffelWeb.Crypto.Digest.Sha256
import EiffelWeb.Crypto.Digest.Fips180
import EiffelWeb.Crypto.Digest.Sha256Conformance
import EiffelWeb.Crypto.Digest.DigestObject
import EiffelWeb.Crypto.Digest.Md5
import EiffelWeb.Crypto.Digest.Sha1
import EiffelWeb.Crypto.Hmac.HmacSha256
import EiffelWeb.Crypto.Hmac.HmacConformance
import EiffelWeb.Crypto.Hmac.Reuse
import EiffelWeb.Crypto.NumberTheory
import EiffelWeb.Crypto.Rsa
import EiffelWeb.Crypto.Ec.Ecdsa
import EiffelWeb.Crypto.Ec.PointFp
import EiffelWeb.Crypto.Ec.GroupLaw
import EiffelWeb.Crypto.Ec.SquareRoot
import EiffelWeb.Crypto.Ec.PointEncoding
import EiffelWeb.Crypto.DerFacilities
import EiffelWeb.Crypto.Limb.SpecialArithmetic
import EiffelWeb.Crypto.Limb.IntegerXObject
import EiffelWeb.Crypto.Limb.IntegerXArithmetic
import EiffelWeb.Crypto.Limb.IntegerXIo
import EiffelWeb.Crypto.Limb.SpecialProduct
import EiffelWeb.Crypto.Limb.Karatsuba
import EiffelWeb.Crypto.Limb.SpecialSquare
import EiffelWeb.Crypto.Limb.SpecialMul
import EiffelWeb.Crypto.Limb.IntegerXMul
import EiffelWeb.Crypto.Limb.LimbDivision
import EiffelWeb.Crypto.Limb.SpecialDivision
import EiffelWeb.Crypto.Limb.SpecialLogic
import EiffelWeb.Crypto.Limb.TruncatedDivision
import EiffelWeb.Crypto.Limb.QuotientRemainder
import EiffelWeb.Crypto.Limb.IntegerXDivision
import EiffelWeb.Router.RequestMethods
import EiffelWeb.Http.HeaderText
import EiffelWeb.Wsf.Redirection
import EiffelWeb.Router.RoutedServiceHelper
import EiffelWeb.Wsf.Items
import EiffelWeb.Router.RequestFormatUtility
import EiffelWeb.Client.HeaderLines
import EiffelWeb.Encoder.EntityErrors
import EiffelWeb.Encoder.EntityCopy
import EiffelWeb.Wsf.PartHeader
import EiffelWeb.Wsf.UploadedFile
import EiffelWeb.Ewsgi.RequestFromTable
import EiffelWeb.Tokens
import EiffelWeb.Http.MimeMapping
import EiffelWeb.Crypto.Limb.IntegerXBits
import EiffelWeb.Crypto.Ec.Product
import EiffelWeb.Crypto.Ec.LucasRoot
import EiffelWeb.TwosComplement
import EiffelWeb.Crypto.DerInteger
import EiffelWeb.Crypto.Limb.IntegerXSingle
import EiffelWeb.Gf2
import EiffelWeb.Crypto.Limb.SpecialXor
import EiffelWeb.Crypto.Limb.InvertGf
import EiffelWeb.Crypto.Limb.LimbBits
import EiffelWeb.Crypto.Ec.CurveF2m
import EiffelWeb.Crypto.Ec.ReduceF2m
import EiffelWeb.Crypto.Ec.SquareF2m
import EiffelWeb.Crypto.Limb.IntegerXLogic
import EiffelWeb.Crypto.Ec.ProductF2m
import EiffelWeb.Crypto.Limb.SquareBasecase
import EiffelWeb.Crypto.Limb.KaratsubaSquare
import EiffelWeb.Crypto.Limb.IntegerXShift
import EiffelWeb.Crypto.Limb.IntegerXComparison
import EiffelWeb.Crypto.Limb.IntegerXConversion
import EiffelWeb.Crypto.Limb.IntegerXRandom
import EiffelWeb.Crypto.Limb.LimbLogic
import EiffelWeb.Crypto.Limb.IntegerXBitwise
import EiffelWeb.Crypto.Limb.IntegerXAndOr
import EiffelWeb.Crypto.Limb.IntegerXSingleBit
import EiffelWeb.Crypto.Limb.IntegerXBitComplement
import EiffelWeb.StrongProbablePrime
import EiffelWeb.Crypto.Limb.IntegerXPrimality
import EiffelWeb.DigitReduction
import EiffelWeb.Crypto.Limb.LimbInverse
import EiffelWeb.Crypto.Limb.MontgomeryReduction
import EiffelWeb.StartingSlash
import EiffelWeb.Ewsgi.InputStream
import EiffelWeb.Crypto.ModeArrays
import EiffelWeb.Crypto.Limb.TextBases
import EiffelWeb.Crypto.Limb.SpecialText
import EiffelWeb.Crypto.Limb.IntegerXText
import EiffelWeb.Crypto.Limb.SpecialRadix
import EiffelWeb.Crypto.Limb.IntegerXRadixText
